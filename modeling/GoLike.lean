import GoLike.Broker.MemoryDelivery
import GoLike.Client.ExchangesClose
import GoLike.Client.ResolverConverges
import GoLike.Client.StreamObserved
import GoLike.Config.EnvSource
import GoLike.Config.Etcd.WatchBody
import GoLike.Config.Etcd.WatcherSignals
import GoLike.Config.Merge
import GoLike.Config.PlaceholderMeaning
import GoLike.Config.ReloadSignals
import GoLike.Context.AfterFunc
import GoLike.Context.Ends
import GoLike.Context.Subtree
import GoLike.Core.AppOrder
import GoLike.Metadata.Maps
import GoLike.Registry.Etcd.RegistrationForeign
import GoLike.Registry.Etcd.WatchReflects
import GoLike.Registry.FrameReaders
import GoLike.Registry.Kubernetes.CodecExact
import GoLike.Registry.Kubernetes.WatchComplete
import GoLike.Registry.Mdns.CacheConsistency
import GoLike.Registry.Mdns.CodecRoundTrip
import GoLike.Registry.Mdns.DnsDecode
import GoLike.Registry.Mdns.ResponsePackets
import GoLike.Registry.Mdns.SnapshotQueueOrder
import GoLike.Registry.Selector.EwmaRuns
import GoLike.Registry.Selector.PowerOfTwoRuns
import GoLike.Registry.Selector.RoundRobin
import GoLike.Registry.Selector.WeightedProportion
import GoLike.Registry.Zookeeper.CodecExact
import GoLike.Registry.Zookeeper.WatchCoherent
import GoLike.Resilience.CircuitSafety
import GoLike.Resilience.LimiterLaws
import GoLike.Server.BindOwnership
import GoLike.Server.Deadline
import GoLike.Server.StreamProtocol
import GoLike.Store.Etcd.Deletes
import GoLike.Store.Etcd.Paging
import GoLike.Store.FilePagination
import GoLike.Store.FileSnapshotOrder
import GoLike.Store.MemoryRefinement
import GoLike.Struct.Admission
