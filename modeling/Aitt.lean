import Aitt.TransitionRuns
import Aitt.TurnTaking
import Aitt.AittTypes
import Aitt.MqttProperties
import Aitt.MosquittoMQ
import Aitt.MosquittoDispatch
import Aitt.MosquittoHandles
import Aitt.MqttPropertyLoop
import Aitt.MalformedProperties
import Aitt.MosquittoBrokerFilters
import Aitt.MosquittoDelivery
import Aitt.Flexbuffers
import Aitt.TcpModule
import Aitt.TcpAdvertisement
import Aitt.TcpConnections
import Aitt.NestedMaps
import Aitt.TcpPublishTable
import Aitt.TcpDiscoveryCodec
import Aitt.TcpHostLookup
import Aitt.AittDiscovery
import Aitt.DiscoveryRunning
import Aitt.DiscoveryRetained
import Aitt.DiscoveryHandle
import Aitt.AittImpl
import Aitt.SubscriptionTables
import Aitt.SubscriptionLifetime
import Aitt.SubscriberCount
import Aitt.DiscoveryRouting
import Aitt.DiscoveryDispatch
import Aitt.DiscoveryCaches
import Aitt.UnsubscribeDelivery
import Aitt.MqttDelivery
import Aitt.AittRequest
import Aitt.PosixMainLoop
import Aitt.SyncRequest
import Aitt.MainLoopRun
import Aitt.MainLoopIdle
import Aitt.MainLoopPipe
import Aitt.MainLoopQuit
import Aitt.GlibMainLoop
import Aitt.MainLoopTimeouts
import Aitt.MainLoopWatch
import Aitt.ReplyIsolation
import Aitt.TcpMsgInfo
import Aitt.PartialTransfers
import Aitt.TcpFraming
import Aitt.TcpSecureFraming
import Aitt.Pkcs7Padding
import Aitt.AesEncryptor
import Aitt.TcpReceive
import Aitt.TcpFanOut
import Aitt.FailedRequest
import Aitt.TcpDelivery
import Aitt.ReplyExchange
import Aitt.MultiPartReply
import Aitt.RequestMetadata
import Aitt.TcpSharedMessage
import Aitt.WebRtcStream
import Aitt.WebRtcManager
import Aitt.WebRtcPeer
import Aitt.WebRtcSignalling
import Aitt.WebRtcConfig
import Aitt.WebRtcSetConfig
import Aitt.WebRtcHandOff
import Aitt.WebRtcRequestServer
import Aitt.WebRtcPeerInformation
import Aitt.RtspDiscovery
import Aitt.RtspCompleteUri
import Aitt.RtspModule
import Aitt.RtspCapture
import Aitt.RtspPlayback
import Aitt.RtspStream
import Aitt.StreamAdvertisement
import Aitt.JavaSubscriptions
import Aitt.JavaRouting
import Aitt.JavaPublishTable
import Aitt.JavaDiscovery
import Aitt.JniDiscovery
import Aitt.JavaDelivery
import Aitt.ListChunks
import Aitt.JavaDataChannel
import Aitt.JavaWebRtc
import Aitt.JavaWebRtcLifecycle
import Aitt.JavaWebRtcSignalling
import Aitt.PairExchange
import Aitt.WebRtcInterop
import Aitt.WebRtcSourceToJava
import Aitt.WebRtcJavaToSink
import Aitt.RangeLoops
import Aitt.JavaNv21
import Aitt.JavaRtspDecoders
import Aitt.JavaIpc
