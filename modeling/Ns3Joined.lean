import Ns3Joined.Lfid.AbstractFib
import Ns3Joined.ContentStore.PriorityFifoCorrect
import Ns3Joined.ContentStore.LruCorrect
import Ns3Joined.Nfd.DeadNonceLookup
import Ns3Joined.Core.ListScheduler
import Ns3Joined.Apps.ConsumerWindowCorrect
import Ns3Joined.Apps.RttMeanDeviation
import Ns3Joined.Helper.GlobalRoutingAllCorrect
import Ns3Joined.Network.BufferAppendCorrect
import Ns3Joined.Network.PacketBbCorrect
import Ns3Joined.Network.PacketSerializeCorrect
import Ns3Joined.Network.NixVector
import Ns3Joined.Wifi.BlockAckCacheCorrect
import Ns3Joined.Wifi.BlockAckWindowCorrect
import Ns3Joined.Wifi.NextAmsduCorrect
import Ns3Joined.Wifi.MacRxMiddle
import Ns3Joined.Wifi.WifiMacQueueCorrect
import Ns3Joined.TrafficControl.TbfQueueDisc
import Ns3Joined.Internet.Ipv4FragmentationCorrect
import Ns3Joined.Aodv.RequestQueue
import Ns3Joined.Lte.RlcAmCorrect
import Ns3Joined.Olsr.NeighborSensingCorrect
import Ns3Joined.Sixlowpan.FragmentationCorrect
import Ns3Joined.Olsr.RoutingTableCorrect
import Ns3Joined.Mpi.DistributedSimulatorCorrect
import Ns3Joined.Mpi.NullMessageSimulatorCorrect
import Ns3Joined.Internet.Ipv4EndPointDemuxCorrect
import Ns3Joined.Internet.TcpRxBufferReported
import Ns3Joined.Internet.TcpRxBufferPackets
import Ns3Joined.Internet.Ipv4StaticRouting
import Ns3Joined.Internet.Ipv4AddressGenerator
import Ns3Joined.Internet.RipCorrect
import Ns3Joined.Internet.RipNetworkCorrect
import Ns3Joined.Nfd.PitCorrect
import Ns3Joined.Core.SimulatorExpiry
import Ns3Joined.Core.Int64x64Cairo
import Ns3Joined.Internet.TcpTxBufferAsked
import Ns3Joined.TrafficControl.CoDelQueueDisc
import Ns3Joined.Olsr.MessageHeader
import Ns3Joined.Internet.TcpHeaderCorrect
import Ns3Joined.Olsr.MprComputation
import Ns3Joined.Olsr.TopologyControlCorrect
import Ns3Joined.Internet.ArpCacheCorrect
import Ns3Joined.Core.NamesCorrect
import Ns3Joined.Network.SequenceNumber
import Ns3Joined.Internet.TcpPrrRecovery
import Ns3Joined.Wifi.BlockAckResponse
import Ns3Joined.Dsr.PathCache
import Ns3Joined.Wimax.MacQueue
import Ns3Joined.Wimax.Tlv
