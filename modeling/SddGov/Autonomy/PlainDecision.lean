import SddGov.Autonomy.Approval
import SddGov.Autonomy.Package
import SddGov.Python.Lines

/-!
# Plain-language decisions

`record_decision` puts one L2 choice of the owner into the decision store. It is
bound to a request file of the repository: an exact L2 request whose decision
package is one card with the options A and B. Everything but the uniqueness of
the id is checked before the lock is taken.
-/

namespace SddGov.Autonomy

open SddGov.Effect SddGov.Python SddGov.Governance

/-! ## Documents -/

/-- The first key that is among those before it. -/
def repeated (seen : List PyStr) : List PyStr → Option PyStr
  | [] => none
  | key :: rest => if seen.contains key then some key else repeated (key :: seen) rest

mutual
/-- The duplicate name that is met first; an object is closed after the values in it. -/
def duplicateName : Json → Option PyStr
  | .arr xs => duplicateNameList xs
  | .obj m => (duplicateNameMembers m).or (repeated [] (keys m))
  | _ => none

def duplicateNameList : List Json → Option PyStr
  | [] => none
  | x :: xs => (duplicateName x).or (duplicateNameList xs)

def duplicateNameMembers : List (PyStr × Json) → Option PyStr
  | [] => none
  | (_, v) :: rest => (duplicateName v).or (duplicateNameMembers rest)
end

/-- `_load_unique_json_bytes`; a text that is also malformed behind a second name is reported as
such. -/
def loadUniqueJsonBytes (raw : Bytes) (label : String) : Except Exn Json :=
  let malformed := Exn.value (lit label ++ lit " must contain UTF-8 JSON")
  match utf8Decode raw with
  | none => .error malformed
  | some text =>
    match parse recursionLimit text with
    | .error .decode => .error malformed
    | .error e => .error (.ofJson e)
    | .ok v =>
      match duplicateName v with
      | some key => .error (.value (lit "JSON object contains duplicate member: " ++ key))
      | none => .ok v

/-- The parts of a `PurePosixPath` without a root. -/
def pathParts (path : PyStr) : List PyStr :=
  (splitAt (cp 0x2F) path).filter fun part => !part.isEmpty && part != lit "."

/-- `str(PurePosixPath(path))`, for a path without a root. -/
def pathText (path : PyStr) : PyStr :=
  if (pathParts path).isEmpty then lit "." else joinTexts (lit "/") (pathParts path)

/-- A path without a root, in its normal form, that does not climb. -/
def isRelativePath (path : PyStr) : Bool :=
  !path.contains (cp 0x5C) && path.head? != some (cp 0x2F) && pathText path == path
    && !(pathParts path).contains (lit "..")

/-- The body runs inside `with FileSetSnapshot(root, label)`: where it has not raised, the set is
compared once more, and what closing raises after an exception is only its cause. -/
def withSnapshot {α : Type} (root : SnapshotRoot) (body : HostProg α) : HostProg α := do
  raising (ask (.openSnapshot root))
  body.handle
    (fun a => do
      raising (ask .reconcileSnapshot)
      pure a)
    (fun e => do
      let _ ← ask .dropSnapshot
      .raise e)

/-- `_read_repository_regular_file`. -/
def readRepositoryRegularFile (path : PyStr) : HostProg Bytes :=
  withSnapshot .repository (raising (ask (.readSnapshot path)))

/-! ## The card -/

/-- An option is an object with a description. -/
def isCardOption : Json → Bool
  | .obj m =>
    match get (lit "description") m with
    | .str s => !isBlank s
    | _ => false
  | _ => false

/-- The label of an option. -/
def cardLabel : Json → Json
  | .obj m => get (lit "label") m
  | _ => .null

/-- `_require_bounded_ab_card`: the options of the package. -/
def requireBoundedAbCard (package : Members) : Except Exn (List Json) :=
  match get (lit "options") package with
  | .arr options =>
    if options.length == 2 && options.all isObject
        && pyEq (.arr (options.map cardLabel)) (.arr [.str (lit "A"), .str (lit "B")])
        && pyEq (get (lit "recommended") package) (.str (lit "A")) && options.all isCardOption then
      .ok options
    else .error (valueError "product decision request must present one bounded A/B card")
  | _ => .error (valueError "product decision request must present one bounded A/B card")

/-- `except (AttributeError, KeyError, TypeError, ValueError)`. -/
def invalidArguments (message : String) {α : Type} : Except Exn α → Except Exn α
  | .error .attribute => .error (valueError message)
  | .error .key => .error (valueError message)
  | .error .type => .error (valueError message)
  | .error (.value _) => .error (valueError message)
  | x => x

/-- `build_action_required(**arguments)`; what is no mapping is a `TypeError`. -/
def buildPackage (C : Crypto) : Json → Except Exn Members
  | .obj m => buildActionRequired C m
  | _ => .error .type

def plainRequestFields : List String :=
  ["risk_level", "category", "effects", "decision_id", "decision_scope", "decision_package"]

/-- The request is the exact L2 request of this decision. -/
def isPlainRequest (decisionId scope : Json) (m : Members) : Bool :=
  keysEq m (plainRequestFields.map lit) && pyEq (get (lit "risk_level") m) (.str (lit "L2"))
    && pyEq (get (lit "category") m) (.str (lit "product_decision"))
    && pyEq (get (lit "effects") m) (.obj []) && pyEq (get (lit "decision_id") m) decisionId
    && pyEq (get (lit "decision_scope") m) scope

/-- What `_plain_l2_request_binding` checks once the file is read. -/
def checkPlainRequest (C : Crypto) (raw : Bytes) (decisionId scope : Json) (selectedLabel : PyStr) :
    Except Exn Unit := do
  let request ← loadUniqueJsonBytes raw "plain-language product decision request"
  match request with
  | .obj m =>
    require (isPlainRequest decisionId scope m)
      "plain-language product decision request is not exact"
    let package ← invalidArguments
      "plain-language product decision request has an invalid Decision Package"
      (buildPackage C (get (lit "decision_package") m))
    let bindingError ← actionRequiredBindingError C (lit "L2") (lit "product_decision") m package
    require bindingError.isNone "plain-language product decision request is not scope-bound"
    let options ← requireBoundedAbCard package
    require ((options.map cardLabel).countP (pyEq · (.str selectedLabel)) == 1)
      "selected product decision label is not in the bounded card"
  | _ => .error (valueError "plain-language product decision request is not exact")

/-- `_plain_l2_request_binding` without an incoming package: the digest of the request. -/
def plainL2RequestBinding (C : Crypto) (requestPath : PyStr) (decisionId scope : Json)
    (selectedLabel : PyStr) : HostProg PyStr := do
  Prog.ofExcept (require (!requestPath.isEmpty && !requestPath.contains (cp 0)
    && isRelativePath requestPath)
    "plain-language product decision request must be repository-relative")
  let raw ← readRepositoryRegularFile requestPath
  Prog.ofExcept (checkPlainRequest C raw decisionId scope selectedLabel)
  pure (C.sha256 raw)

/-! ## Recording -/

/-- `_project_profile`. -/
def projectProfile : HostProg PyStr := do
  let project ← readJson .project .null
  Prog.ofExcept (match project with
    | .obj m => do
      let known ← memberOfSet (get (lit "profile") m)
        (["solo-fast", "team-standard", "regulated"].map lit)
      match known, get (lit "profile") m with
      | true, .str profile => .ok profile
      | _, _ => .error (valueError ".sddgov/project.json has an invalid profile")
    | _ => .error (valueError ".sddgov/project.json has an invalid profile"))

/-- The arguments of `record_decision`. -/
structure PlainDecision where
  decisionId : Json
  summary : Json
  scope : Json
  basis : Json
  reopenCondition : Json
  requestPath : PyStr

/-- A text that is neither blank nor too long. -/
def isBoundedText : Json → Except Exn Bool
  | .str s =>
    if isBlank s then .ok false
    else
      match utf8Encode s with
      | none => .error (valueError "UnicodeEncodeError")
      | some bytes => .ok (bytes.length ≤ 4096)
  | _ => .ok false

/-- All values are bounded texts; the first that is not decides. -/
def allBoundedText : List Json → Except Exn Bool
  | [] => .ok true
  | value :: rest => do
    let bounded ← isBoundedText value
    if bounded then allBoundedText rest else .ok false

def ownerChoicePrefix : PyStr := lit "owner_explicit_choice:"

/-- The label a basis names: it has the prefix, and something after it. -/
def selectedLabel? : Json → Option PyStr
  | .str basis =>
    let label := strip (basis.drop ownerChoicePrefix.length)
    if ownerChoicePrefix.isPrefixOf basis && !label.isEmpty then some label else none
  | _ => none

/-- The checks on the arguments; the label the owner has chosen. -/
def checkPlainDecision (d : PlainDecision) : Except Exn PyStr := do
  let bounded ← allBoundedText [d.decisionId, d.summary, d.scope, d.basis, d.reopenCondition]
  require bounded "plain-language product decision fields must be bounded text"
  match selectedLabel? d.basis with
  | none =>
    .error (valueError
      "plain-language product decision basis must be owner_explicit_choice:<label>")
  | some label => do
    require (pyEq d.reopenCondition (.str (lit "scope_or_assumptions_change")))
      "plain-language product decision reopen_condition must be scope_or_assumptions_change"
    .ok label

/-- The row of a plain-language decision. -/
def plainRow (d : PlainDecision) (profile requestSha256 : PyStr) (recordedAt : Instant) : Members :=
  [(lit "decision_id", d.decisionId), (lit "risk_level", .str (lit "L2")),
    (lit "summary", d.summary),
    (lit "scope", d.scope), (lit "basis", d.basis), (lit "status", .str (lit "approved")),
    (lit "recorded_at", .str (stamp recordedAt)), (lit "reopen_condition", d.reopenCondition),
    (lit "approval_mode", .str (lit "plain_language_owner_choice")), (lit "profile", .str profile),
    (lit "approved_by", .str (lit "project_owner")), (lit "request_path", .str d.requestPath),
    (lit "request_sha256", .str requestSha256)]

/-- The part of `record_decision` that runs under the lock. -/
def recordPlainDecision (d : PlainDecision) (profile requestSha256 : PyStr) : HostProg Unit := do
  let store ← decisionStore
  if store.decisions.any (hasDecisionId d.decisionId) then
    .raise (valueError "product decision ID already exists")
  else do
    let recordedAt ← ask .now
    atomicJson .decisions
      (store.withRows (store.decisions ++ [plainRow d profile requestSha256 recordedAt]))

/-- What is settled before the lock is taken: the profile, and the digest of the request. -/
def bindPlainDecision (C : Crypto) (d : PlainDecision) : HostProg (PyStr × PyStr) := do
  let profile ← projectProfile
  Prog.ofExcept (require (profile == lit "team-standard")
    "this profile requires a signed owner L2 approval; use import-product-approval")
  let label ← Prog.ofExcept (checkPlainDecision d)
  let requestSha256 ← plainL2RequestBinding C d.requestPath d.decisionId d.scope label
  pure (profile, requestSha256)

/-- `record_decision`. -/
def recordDecision (C : Crypto) (d : PlainDecision) : HostProg Members := do
  let (profile, requestSha256) ← bindPlainDecision C d
  withLock .decisions (recordPlainDecision d profile requestSha256)
  pure [(lit "decision_id", d.decisionId),
    (lit "verification", .str (lit "PLAIN_LANGUAGE_DECISION_RECORDED")),
    (lit "approval_mode", .str (lit "plain_language_owner_choice")), (lit "profile", .str profile)]

end SddGov.Autonomy
