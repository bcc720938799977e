import SpeechBridge.Basic.Grouping
import SpeechBridge.Model.Main
import SpeechBridge.Abstract.Views
import SpeechBridge.Properties.Library
import SpeechBridge.Properties.Lookups
import SpeechBridge.Properties.Ids
import SpeechBridge.Properties.Walk
import SpeechBridge.Properties.Catalogues
import SpeechBridge.Properties.Reordering
import SpeechBridge.Properties.Deferral
import SpeechBridge.Basic.Decoder
import SpeechBridge.Basic.LittleEndian
import SpeechBridge.Basic.Filling
import SpeechBridge.Rcf.Encoding
import SpeechBridge.Rcf.ByteBuffer
import SpeechBridge.Rcf.Filters
import SpeechBridge.Rcf.Envelope
import SpeechBridge.Rcf.SerializationProtocol
import SpeechBridge.Rcf.MethodInvocation
import SpeechBridge.Rcf.Messages
import SpeechBridge.Rcf.ClientStub
import SpeechBridge.Rcf.Versioning
import SpeechBridge.Basic.Runs
import SpeechBridge.Basic.Framing
import SpeechBridge.Rcf.Transport
import SpeechBridge.Rcf.Wire
import SpeechBridge.Rcf.SessionIo
import SpeechBridge.Rcf.SessionRefinement
import SpeechBridge.Basic.Codec
import SpeechBridge.Sf.Stream
import SpeechBridge.Sf.Serializer
import SpeechBridge.Rcf.Marshal
import SpeechBridge.Rcf.Idl
import SpeechBridge.Rcf.ServerStub
import SpeechBridge.Sf.Archives
