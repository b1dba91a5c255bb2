import GoDatabase.Basic
import GoDatabase.Network.Protocol
import GoDatabase.Raft.Log
import GoDatabase.Raft.Node
import GoDatabase.Raft.Cluster
import GoDatabase.Raft.LeaderDeadlock
import GoDatabase.Raft.Safety
import GoDatabase.Raft.Registry
import GoDatabase.Raft.PeerFlag
import GoDatabase.Raft.Storage
import GoDatabase.Replication.ReplicatedStorage
import GoDatabase.Replication.Healthy
import GoDatabase.BTree.Node
import GoDatabase.BTree.Layout
import GoDatabase.BTree.Tree
import GoDatabase.BTree.Pages
import GoDatabase.BTree.LeafMap
import GoDatabase.Raft.AppendEntries
import GoDatabase.Raft.Votes
import GoDatabase.Raft.Progress
import GoDatabase.BTree.Routing
import GoDatabase.Storage.Engine
import GoDatabase.BTree.Renaming
import GoDatabase.BTree.Simulation
import GoDatabase.BTree.SharedTrees
import GoDatabase.BTree.Codec
import GoDatabase.BTree.PageLayout
import GoDatabase.Network.Server
import GoDatabase.Network.Client
import GoDatabase.Storage.File
import GoDatabase.BTree.StoredValues
