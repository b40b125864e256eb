import MdtDialoutCollector.Core.Envelopes
import MdtDialoutCollector.Core.Returns
import MdtDialoutCollector.DataManipulation.EnvelopeBody

/-! The content that the two delivery methods bring to a reader. A ZMQ consumer reads a C
string, which a NUL byte cuts short; a reader of the Kafka record finds a JSON value, which
stands for the body only where the parser keeps the whole of it and all texts are UTF-8. The
bodies that the collector writes itself are documents without NUL bytes, so what can go
wrong with these is their depth and the encoding of the device's strings. -/

namespace MdtDialoutCollector.Core

open DataManipulation External Json Labels Proto Text Utils

section Lawful

variable {J : JsonCpp} {P : Protobuf} (hJ : J.Lawful) (hP : P.Lawful J.floats)

include hJ

section Vendors

variable (ctx : Context) (peer : PeerEndpoint)

end Vendors

include hP

end Lawful

end MdtDialoutCollector.Core
