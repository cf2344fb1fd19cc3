import AssureCode.Python.Text

/-! # The rules of the static scan

The rule file of the OWASP Top 10:2025 taxonomy, which both scanners load. A pattern stays the
text that a regular expression engine is given.
-/

namespace AssureCode.Security

open Js

inductive Severity | low | medium | high | critical
  deriving DecidableEq, Repr

structure RuleSpec where
  type : Text
  category : Text
  severity : Severity
  pattern : String
  caseInsensitive : Bool
  message : Text

def taxonomyVersion : String := "OWASP Top 10:2025"

/-- The categories, each with its name. -/
def categories : List (Text × String) := [
  (units "A01:2025", "Broken Access Control"),
  (units "A02:2025", "Security Misconfiguration"),
  (units "A03:2025", "Software Supply Chain Failures"),
  (units "A04:2025", "Cryptographic Failures"),
  (units "A05:2025", "Injection"),
  (units "A06:2025", "Insecure Design"),
  (units "A07:2025", "Authentication Failures"),
  (units "A08:2025", "Software and Data Integrity Failures"),
  (units "A09:2025", "Security Logging and Alerting Failures"),
  (units "A10:2025", "Mishandling of Exceptional Conditions")
]

def rules : List RuleSpec := [
  { type := units "SSRF_UNVALIDATED_FETCH"
    category := units "A01:2025"
    severity := .high
    pattern := "(?:fetch|axios(?:\\.get|\\.post)?|got|request)\\s*\\(\\s*(?:req|" ++
      "request)\\.(?:query|body|params)\\."
    caseInsensitive := true
    message := units "Outbound request to a user-supplied URL (SSRF)" },
  { type := units "MISSING_AUTHORIZATION_CHECK"
    category := units "A01:2025"
    severity := .medium
    pattern := "\\.(?:get|post|put|patch|delete)\\s*\\(\\s*['\"][^'\"]*/(?:admin|" ++
      "internal|_debug)[^'\"]*['\"]\\s*,\\s*(?:async\\s*)?\\("
    caseInsensitive := true
    message := units "Privileged route registered with no authorization middleware" },
  { type := units "WILDCARD_CORS"
    category := units "A02:2025"
    severity := .medium
    pattern := "origin\\s*:\\s*['\"]\\*['\"]|Access-Control-Allow-Origin['\"]?\\s*[,:]" ++
      "\\s*['\"]\\*['\"]"
    caseInsensitive := true
    message := units "CORS configured to allow any origin" },
  { type := units "STACK_TRACE_LEAK"
    category := units "A02:2025"
    severity := .medium
    pattern := "(?:res|response)\\s*\\.[a-zA-Z]*\\s*\\(\\s*\\\x7b[^\x7d]*(?:err" ++
      "\\.stack|error\\.stack|process\\.env)"
    caseInsensitive := false
    message := units "Stack trace or environment returned to the client" },
  { type := units "TLS_VERIFICATION_DISABLED"
    category := units "A02:2025"
    severity := .high
    pattern := "rejectUnauthorized\\s*:\\s*false|NODE_TLS_REJECT_UNAUTHORIZED['\"]?" ++
      "\\s*\\]?\\s*=\\s*['\"]?0|verify\\s*=\\s*False"
    caseInsensitive := false
    message := units "TLS certificate verification disabled" },
  { type := units "UNTRUSTED_PACKAGE_INSTALL"
    category := units "A03:2025"
    severity := .critical
    pattern := "(?:npm|yarn|pnpm|pip)\\s+(?:install|add)\\s+(?:http|git\\+|\\$\\\x7b|" ++
      "['\"]\\s*\\+)"
    caseInsensitive := true
    message := units "Package installed from an unverified or user-controlled source" },
  { type := units "REMOTE_SCRIPT_EXECUTION"
    category := units "A03:2025"
    severity := .critical
    pattern := "curl[^\\n|]*\\|\\s*(?:ba)?sh|wget[^\\n|]*\\|\\s*(?:ba)?sh"
    caseInsensitive := true
    message := units "Remote script piped directly into a shell" },
  { type := units "HARDCODED_SECRET"
    category := units "A04:2025"
    severity := .high
    pattern := "(?:api[_-]?key|secret|password|passwd|token|private[_-]?key)\\s*[:=]" ++
      "\\s*['\"][a-zA-Z0-9_\\-/+=]\x7b8,\x7d['\"]"
    caseInsensitive := true
    message := units "Hardcoded credential or API key" },
  { type := units "WEAK_HASH_ALGORITHM"
    category := units "A04:2025"
    severity := .medium
    pattern := "createHash\\s*\\(\\s*['\"](?:md5|sha1)['\"]|hashlib\\.(?:md5|sha1)\\s*" ++
      "\\("
    caseInsensitive := true
    message := units "Broken hash algorithm (MD5/SHA-1) used" },
  { type := units "INSECURE_RANDOMNESS"
    category := units "A04:2025"
    severity := .medium
    pattern := "Math\\.random\\s*\\(\\s*\\)[^\\n]*(?:token|secret|password|key|nonce|" ++
      "salt|otp)|(?:token|secret|password|key|nonce|salt|otp)[^\\n]*Math\\.random\\s*\\("
    caseInsensitive := true
    message := units "Math.random() used for a security-sensitive value" },
  { type := units "SQL_INJECTION"
    category := units "A05:2025"
    severity := .critical
    pattern := "(?:SELECT|INSERT|UPDATE|DELETE)\\s+[^;'\"]*(?:FROM|INTO|SET)" ++
      "\\s+[^;'\"]*(?:\\$\\\x7b|['\"]\\s*\\+\\s*[a-zA-Z_]|%\\s*\\()"
    caseInsensitive := true
    message := units "SQL built by string concatenation or interpolation" },
  { type := units "COMMAND_INJECTION"
    category := units "A05:2025"
    severity := .critical
    pattern := "(?:child_process\\.)?exec(?:Sync)?\\s*\\(\\s*[`'\"][^`'\"]*(?:\\$" ++
      "\\\x7b|['\"]\\s*\\+)|os\\.system\\s*\\(|subprocess\\.[a-zA-Z_]+\\([^)]*shell\\s*=" ++
      "\\s*True"
    caseInsensitive := false
    message := units "Shell command assembled from untrusted input" },
  { type := units "PATH_TRAVERSAL"
    category := units "A06:2025"
    severity := .high
    pattern := "(?:readFile|readFileSync|createReadStream|sendFile|open)\\s*\\(" ++
      "\\s*(?:[a-zA-Z_.]*\\s*\\+\\s*)?(?:req|request)\\.(?:query|body|params)\\.|path\\.join" ++
      "\\s*\\([^)]*(?:req|request)\\.(?:query|body|params)\\."
    caseInsensitive := true
    message := units "Filesystem path derived from user input without normalization" },
  { type := units "MISSING_RATE_LIMIT"
    category := units "A06:2025"
    severity := .low
    pattern := "\\.(?:post|put)\\s*\\(\\s*['\"][^'\"]*(?:login|signin|reset|otp|" ++
      "verify)[^'\"]*['\"]"
    caseInsensitive := true
    message := units "Authentication endpoint with no visible rate limiting" },
  { type := units "WEAK_AUTH_COMPARISON"
    category := units "A07:2025"
    severity := .high
    pattern := "(?:password|passwd|token|secret|apikey|api_key)\\s*(?:===?|!==?)" ++
      "\\s*(?:req|request)\\.|(?:req|request)\\.[a-zA-Z.]*(?:password|token)\\s*(?:===?|" ++
      "!==?)"
    caseInsensitive := true
    message := units
      "Credential compared with a plain equality operator, not a constant-time check" },
  { type := units "JWT_VERIFICATION_SKIPPED"
    category := units "A07:2025"
    severity := .critical
    pattern := "jwt\\.decode\\s*\\(|algorithms\\s*:\\s*\\[\\s*['\"]none['\"]|" ++
      "verify_signature['\"]?\\s*:\\s*False"
    caseInsensitive := true
    message := units "JWT decoded without signature verification" },
  { type := units "DYNAMIC_CODE_EXECUTION"
    category := units "A08:2025"
    severity := .critical
    pattern := "\\beval\\s*\\(|new\\s+Function\\s*\\(|vm\\.runInThisContext\\s*\\(|" ++
      "\\bexec\\s*\\(\\s*compile\\s*\\("
    caseInsensitive := false
    message := units "Dynamic code execution via eval or the Function constructor" },
  { type := units "INSECURE_DESERIALIZATION"
    category := units "A08:2025"
    severity := .critical
    pattern := "pickle\\.loads?\\s*\\(|yaml\\.load\\s*\\((?![^)]*Loader\\s*=)|" ++
      "unserialize\\s*\\(|node-serialize"
    caseInsensitive := false
    message := units "Untrusted data deserialized without a safe loader" },
  { type := units "UNVERIFIED_UPDATE_SOURCE"
    category := units "A08:2025"
    severity := .high
    pattern := "(?:integrity|checksum|signature)\\s*[:=]\\s*(?:null|None|false|" ++
      "['\"]['\"])"
    caseInsensitive := true
    message := units "Integrity or signature check explicitly disabled" },
  { type := units "SENSITIVE_DATA_LOGGED"
    category := units "A09:2025"
    severity := .medium
    pattern := "console\\.(?:log|info|debug)\\s*\\([^)]*(?:password|passwd|secret|" ++
      "api[_-]?key|token|ssn|credit[_-]?card)|logger?\\.[a-z]+\\s*\\([^)]*(?:password|" ++
      "passwd|api[_-]?key)"
    caseInsensitive := true
    message := units "Credential or sensitive field written to logs" },
  { type := units "SILENT_EXCEPTION_SWALLOW"
    category := units "A10:2025"
    severity := .medium
    pattern := "catch\\s*\\([^)]*\\)\\s*\\\x7b\\s*\\\x7d|catch\\s*\\\x7b\\s*\\\x7d|" ++
      "except[^:]*:\\s*pass\\b"
    caseInsensitive := false
    message := units "Exception caught and discarded, hiding the failure" },
  { type := units "AUTH_FAILS_OPEN"
    category := units "A10:2025"
    severity := .critical
    pattern := "catch\\s*\\([^)]*\\)\\s*\\\x7b[^\x7d]*(?:return\\s+true|isValid\\s*=" ++
      "\\s*true|authenticated\\s*=\\s*true|next\\s*\\(\\s*\\))"
    caseInsensitive := true
    message := units "Error handler grants access instead of denying it (fails open)" }
]

end AssureCode.Security
