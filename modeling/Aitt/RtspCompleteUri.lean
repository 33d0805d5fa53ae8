import Aitt.RtspDiscovery

/-! The complete address as a text: when the bytes that C++ makes out of a discovery entry and the
`char` values that Java makes out of the same texts are the ones of that address. -/
namespace RtspCompleteUri

open AittTypes Flexbuffers TcpMsgInfo RtspDiscovery

section Encodings

end Encodings

section Texts

variable {t info : RtspInfo}

end Texts

local instance : Package := plain

end RtspCompleteUri
