import MctpSerial.StreamTransducers
import MctpSerial.FrameCheckSequence
import MctpSerial.ShiftRegisters
import MctpSerial.BitwiseChecksum
import MctpSerial.FrameEncoder
import MctpSerial.ReceiveStateMachine
import MctpSerial.ReceiveBounds
import MctpSerial.StreamDecoding
import MctpSerial.AcceptedFrames
import MctpSerial.ReceivePhases
import MctpSerial.ChecksumStrength
import MctpSerial.Resynchronisation
import MctpSerial.SendNeighbours
import MctpSerial.FramerSessions
import MctpSerial.GuardedRuns
import MctpSerial.OpeningReports
import MctpSerial.BroadcastMessenger
import MctpSerial.BridgeDispatch
import MctpSerial.BridgeRelay
import MctpSerial.BridgeTransmission
import MctpSerial.BridgeSurvival
import MctpSerial.DestinationLookup
import MctpSerial.DescriptorLedgers
import MctpSerial.BroadcastDescriptors
import MctpSerial.ManagedUsbTty
import MctpSerial.HotPlug
import MctpSerial.DeviceForwarding
import MctpSerial.DevicePresence
import MctpSerial.InterfaceDiscovery
import MctpSerial.MemoryWalks
import MctpSerial.NetlinkReplies
import MctpSerial.NetlinkReplyBounds
import MctpSerial.NetworkIdLookup
import MctpSerial.NetlinkRequests
import MctpSerial.NetlinkDrafts
import MctpSerial.AttributeForests
import MctpSerial.RequestBounds
import MctpSerial.EndpointNames
import MctpSerial.BridgeDescriptors
import MctpSerial.JoinedMachines
import MctpSerial.BridgePairs
import MctpSerial.BridgeChains
import MctpSerial.BridgeOverload
import MctpSerial.BridgePolling
import MctpSerial.RequestMeanings
import MctpSerial.BridgeConfiguration
import MctpSerial.CommandLine
import MctpSerial.LineRecovery
import MctpSerial.BridgeProgress
