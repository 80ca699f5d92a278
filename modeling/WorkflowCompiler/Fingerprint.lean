import WorkflowCompiler.Digest.Blake3
import WorkflowCompiler.Json.Printer

/-!
Fingerprints of texts and of JSON values. A value is fingerprinted through its compact text.
-/

namespace WorkflowCompiler

def fingerprintText (text : String) : String := "blake3:" ++ Blake3.hexHash text

def Json.fingerprint (j : Json) : String := fingerprintText j.compact

end WorkflowCompiler
