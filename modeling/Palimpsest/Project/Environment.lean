import Mathlib.Data.Char
import Palimpsest.Lib.Json
import Palimpsest.Lib.Regex

/-!
# The environment of a service

The environment is a mapping of keys to templates, or a sequence of `KEY=template` items
(`parseEnvironment`). A template may refer to variables of the host. A template that looks like a
secret is rejected, whatever its key is, and a key that looks like one of a secret needs a
template that is nothing but a reference.

Which characters beyond ASCII are letters or digits (`str.isalnum`) is a parameter.
-/

namespace Palimpsest.Project

open Json Regex

/-! ### Characters -/

/-- `str.isspace`. -/
def isSpace (c : Char) : Bool :=
  c.toNat ∈ [9, 10, 11, 12, 13, 28, 29, 30, 31, 32, 0x85, 0xa0, 0x1680, 0x2000, 0x2001, 0x2002,
    0x2003, 0x2004, 0x2005, 0x2006, 0x2007, 0x2008, 0x2009, 0x200a, 0x2028, 0x2029, 0x202f,
    0x205f, 0x3000]

/-- A character, where case does not matter: four characters beyond ASCII go with a letter. -/
def folded (c : Char) : Char :=
  if c.toNat = 0x130 || c.toNat = 0x131 then 'i'
  else if c.toNat = 0x17f then 's'
  else if c.toNat = 0x212a then 'k'
  else c.toLower

/-- The same character, with `re.IGNORECASE`. -/
def sameLetter (c d : Char) : Bool := folded d = folded c

/-- `[A-Za-z_]`. -/
def isKeyStart (c : Char) : Bool := c.isAlpha || c = '_'

/-- `[A-Za-z0-9_]`. -/
def isKeyChar (c : Char) : Bool := c.isAlphanum || c = '_'

/-! ### Expressions -/

/-- `^`. -/
def textStart : Regex := .assert fun b _ => b.isNone

/-- `$`. -/
def textEnd : Regex := .assert fun _ a => a = [] || a = ['\n']

/-- `^`, with `re.MULTILINE`. -/
def lineStart : Regex := .assert fun b _ => b.all fun c => c = '\n'

/-- `\w`. -/
def isWordChar (alnum : Char → Bool) (c : Char) : Bool :=
  c = '_' || if c.toNat < 0x80 then c.isAlphanum else alnum c

/-- `\b`. -/
def boundary (alnum : Char → Bool) : Regex :=
  .assert fun b a => b.any (isWordChar alnum) != a.head?.any (isWordChar alnum)

/-- One character after another, as they are. -/
def exactly (s : String) : Regex := word (fun c d => c = d) s.toList

/-- One character after another, in either case. -/
def ignoringCase (s : String) : Regex := word sameLetter s.toList

/-- One of these characters. -/
def charOf (s : String) : Regex := chars fun c => c ∈ s.toList

/-- `_ENV_KEY_RE`. -/
def envKeyRe : Regex :=
  seq textStart (seq (chars isKeyStart) (seq (star (chars isKeyChar)) textEnd))

/-- `[^{}$]`. -/
def isOperandChar (c : Char) : Bool := c ≠ '{' && c ≠ '}' && c ≠ '$'

/-- `_INTERPOLATION_RE`. -/
def interpolationRe : Regex :=
  seq textStart (seq (chars isKeyStart) (seq (star (chars isKeyChar))
    (seq (opt (seq (alt (exactly ":-") (exactly ":?")) (star (chars isOperandChar)))) textEnd)))

/-- `_PURE_INTERPOLATION_RE`. -/
def pureInterpolationRe : Regex :=
  seq textStart (seq (exactly "$\x7b") (seq (chars isKeyStart) (seq (star (chars isKeyChar))
    (seq (opt (seq (exactly ":?") (star (chars isOperandChar)))) (seq (exactly "\x7d") textEnd)))))

/-- The words for secrets. -/
def secretWord : Regex :=
  oneOf (ignoringCase "password") [ignoringCase "passwd", ignoringCase "token",
    ignoringCase "secret",
    seq (ignoringCase "private") (seq (opt (charOf "_-")) (ignoringCase "key")),
    seq (ignoringCase "api") (seq (opt (charOf "_-")) (ignoringCase "key")),
    ignoringCase "credential"]

/-- `[^a-z0-9]`. -/
def noAlphanum : Regex := chars fun c => !(folded c).isAlphanum

/-- `_SECRET_WORD_RE`. -/
def secretWordRe : Regex :=
  seq (alt textStart noAlphanum) (seq secretWord (alt textEnd noAlphanum))

/-- `-----BEGIN [A-Z ]*PRIVATE KEY-----`. -/
def privateKeyRe : Regex :=
  seq (exactly "-----BEGIN ") (seq (star (chars fun c => c.isUpper || c = ' '))
    (exactly "PRIVATE KEY-----"))

/-- `[A-Za-z0-9._~+/=-]`. -/
def isBearerChar (c : Char) : Bool := (folded c).isAlphanum || c ∈ "._~+/=-".toList

/-- `\bBearer\s+[A-Za-z0-9._~+/=-]{12,}`. -/
def bearerRe (alnum : Char → Bool) : Regex :=
  seq (boundary alnum) (seq (ignoringCase "Bearer") (seq (many1 (chars isSpace))
    (seq (times 12 (chars isBearerChar)) (star (chars isBearerChar)))))

/-- `\b(?:ghp|github_pat|glpat|xox[baprs])-[_A-Za-z0-9-]{12,}\b`. -/
def accessTokenRe (alnum : Char → Bool) : Regex :=
  seq (boundary alnum) (seq (oneOf (exactly "ghp") [exactly "github_pat", exactly "glpat",
    seq (exactly "xox") (charOf "baprs")]) (seq (exactly "-")
      (seq (times 12 (chars fun c => isKeyChar c || c = '-'))
        (seq (star (chars fun c => isKeyChar c || c = '-')) (boundary alnum)))))

/-- `[a-z0-9+.-]`. -/
def isSchemeChar (c : Char) : Bool := (folded c).isAlphanum || c ∈ "+.-".toList

/-- `[a-z][a-z0-9+.-]*://[^\s/:@]+:[^\s/@]+@`. -/
def urlRe : Regex :=
  seq (chars fun c => (folded c).isAlpha) (seq (star (chars isSchemeChar)) (seq (exactly "://")
    (seq (many1 (chars fun c => !isSpace c && c ∉ "/:@".toList)) (seq (exactly ":")
      (seq (many1 (chars fun c => !isSpace c && c ∉ "/@".toList)) (exactly "@"))))))

/-- `[:=]\s*(?!\$\{)(?=[^\s#])`, after spaces. -/
def assignedRe : Regex :=
  seq (star (chars isSpace)) (seq (charOf ":=") (seq (star (chars isSpace))
    (seq (notAhead (exactly "$\x7b")) (ahead (chars fun c => !isSpace c && c ≠ '#')))))

/-- A word for a secret to which something is assigned. -/
def assignmentRe : Regex :=
  seq (alt lineStart (chars fun c => isSpace c || c ∈ ",\x7b;".toList)) (seq secretWord assignedRe)

/-- `_SECRET_VALUE_PATTERNS`. -/
def secretValuePatterns (alnum : Char → Bool) : List Regex :=
  [privateKeyRe, bearerRe alnum, accessTokenRe alnum, urlRe, assignmentRe]

/-! ### Templates -/

/-- A template, which may be one that is not interpolated (`_NoInterpolationString`). -/
structure Template where
  text : Text
  isLiteral : Bool
  deriving DecidableEq

/-- `re.sub(r"([a-z])([A-Z])", r"\1_\2", …)`. -/
def splitCamel : Text → Text
  | c :: d :: t =>
    if c.isLower && d.isUpper then c :: '_' :: splitCamel (d :: t) else c :: splitCamel (d :: t)
  | t => t

/-- `_is_sensitive_key`. -/
def isSensitiveKey (key : Text) : Bool :=
  secretWordRe.search ((splitCamel key).map Char.toLower)

/-- `_is_external_secret_reference`. -/
def isExternalSecretReference (t : Template) : Bool :=
  !t.isLiteral && pureInterpolationRe.fullMatch t.text

/-- Why an environment is rejected, with the field that is at fault. -/
inductive EnvironmentError
  | notString (context : Text)
  | controlCharacter (context : Text)
  | empty (context : Text)
  | notEnvironment (context : Text)
  | invalidKey (context key : Text)
  | duplicateKey (context key : Text)
  | interpolationSyntax (context : Text)
  | unterminatedInterpolation (context : Text)
  | unsupportedExpression (context expression : Text)
  | secretValue (context : Text)
  | secretKey (context key : Text)
  deriving DecidableEq

/-- Whether a text is secret-shaped. -/
def isSecretValue (alnum : Char → Bool) (t : Text) : Bool :=
  (secretValuePatterns alnum).any fun pattern => pattern.search t

/-- `_reject_secret_value`. -/
def rejectSecretValue (alnum : Char → Bool) (t context : Text) : Except EnvironmentError Unit :=
  if isSecretValue alnum t then .error (.secretValue context) else .ok ()

/-- `_string`, of a string. -/
def stringValue (t context : Text) (nonempty : Bool) : Except EnvironmentError Unit :=
  if t.any fun c => c = '\x00' || c = '\r' then .error (.controlCharacter context)
  else if nonempty && t.all isSpace then .error (.empty context)
  else .ok ()

/-- The loop of `interpolation_variables`, outside of an expression or after this part of one. -/
def variablesFrom (context : Text) : Option Text → Text → Except EnvironmentError (List Text)
  | none, [] => return []
  | none, '$' :: '$' :: t => variablesFrom context none t
  | none, '$' :: '{' :: t => variablesFrom context (some []) t
  | none, '$' :: _ => .error (.interpolationSyntax context)
  | none, _ :: t => variablesFrom context none t
  | some _, [] => .error (.unterminatedInterpolation context)
  | some expression, '}' :: t => do
    if !interpolationRe.fullMatch expression then .error (.unsupportedExpression context expression)
    let names ← variablesFrom context none t
    return expression.takeWhile isKeyChar :: names
  | some expression, c :: t => variablesFrom context (some (expression ++ [c])) t

/-- `interpolation_variables`. -/
def interpolationVariables (t : Template) (context : Text) :
    Except EnvironmentError (List Text) := do
  if t.isLiteral then return []
  let names ← variablesFrom context none t.text
  return names.reverse.dedup.reverse

/-- `_validate_template`, where nothing is interpolated yet. -/
def validateTemplate (alnum : Char → Bool) (t : Template) (context : Text) :
    Except EnvironmentError Unit := do
  stringValue t.text context false
  let _ ← interpolationVariables t context
  rejectSecretValue alnum t.text context

/-! ### Environments -/

/-- A value of a document. -/
inductive Scalar
  | null
  | bool (b : Bool)
  | int (n : ℤ)
  | text (t : Template)
  | other

/-- The field `environment` of a service. -/
inductive EnvironmentValue
  | null
  | mapping (entries : List (Text × Scalar))
  | sequence (items : List Scalar)
  | other

/-- The text of a key that is to be taken from the host. -/
def requiredReference (key : Text) : Text :=
  "$\x7b".toList ++ key ++ ":?".toList ++ key ++ " is required\x7d".toList

/-- The template of an entry. -/
def entryTemplate (context : Text) (entry : Text × Scalar) :
    Except EnvironmentError (Text × Template) := do
  let template : Template ← match entry.2 with
    | .null => pure ⟨requiredReference entry.1, false⟩
    | .bool b => pure ⟨if b then "true".toList else "false".toList, false⟩
    | .int n => pure ⟨(toString n).toList, false⟩
    | .text t => pure t
    | .other => .error (.notString (context ++ '.' :: entry.1))
  stringValue template.text (context ++ '.' :: entry.1) false
  return (entry.1, template)

/-- The key and the template of an item. -/
def itemTemplate (context : Text) (item : Scalar) (index : ℕ) :
    Except EnvironmentError (Text × Template) :=
  let itemContext := context ++ '[' :: natText index ++ [']']
  match item with
  | .text t => do
    stringValue t.text itemContext true
    let key := t.text.takeWhile fun c => c ≠ '='
    match t.text.dropWhile fun c => c ≠ '=' with
    | [] => return (key, ⟨requiredReference key, t.isLiteral⟩)
    | _ :: rawValue => return (key, ⟨rawValue, t.isLiteral⟩)
  | _ => .error (.notString itemContext)

/-- The templates of items from this index on. -/
def itemTemplates (context : Text) :
    List Scalar → ℕ → Except EnvironmentError (List (Text × Template))
  | [], _ => return []
  | item :: items, index => do
    let pair ← itemTemplate context item index
    let pairs ← itemTemplates context items (index + 1)
    return pair :: pairs

/-- One key and its template, after these keys. -/
def checkPair (alnum : Char → Bool) (context : Text) (seen : List Text) (pair : Text × Template) :
    Except EnvironmentError Unit :=
  if !envKeyRe.fullMatch pair.1 then .error (.invalidKey context pair.1)
  else if pair.1 ∈ seen then .error (.duplicateKey context pair.1)
  else do
    validateTemplate alnum pair.2 (context ++ '.' :: pair.1)
    if isSensitiveKey pair.1 && !isExternalSecretReference pair.2 then
      .error (.secretKey context pair.1)
    else return ()

/-- The keys and their templates one by one. -/
def checkPairs (alnum : Char → Bool) (context : Text) : List Text → List (Text × Template) →
    Except EnvironmentError Unit
  | _, [] => return ()
  | seen, pair :: pairs => do
    checkPair alnum context seen pair
    checkPairs alnum context (pair.1 :: seen) pairs

/-- The keys and the templates of a value. -/
def environmentPairs (context : Text) :
    EnvironmentValue → Except EnvironmentError (List (Text × Template))
  | .null => return []
  | .mapping entries => entries.mapM (entryTemplate context)
  | .sequence items => itemTemplates context items 0
  | .other => .error (.notEnvironment context)

/-- `_parse_environment`. -/
def parseEnvironment (alnum : Char → Bool) (value : EnvironmentValue) (context : Text) :
    Except EnvironmentError (List (Text × Template)) := do
  let pairs ← environmentPairs context value
  checkPairs alnum context [] pairs
  return pairs.mergeSort fun p q => p.1 ≤ q.1

/-- `_assert_state_safe`, on the environment of a service: on each value with its key. -/
def assertStateSafe (alnum : Char → Bool) : List (Text × Template) → Except EnvironmentError Unit
  | [] => return ()
  | (key, template) :: environment => do
    rejectSecretValue alnum template.text key
    if isSensitiveKey key && !isExternalSecretReference template then .error (.secretKey [] key)
    assertStateSafe alnum environment

end Palimpsest.Project
