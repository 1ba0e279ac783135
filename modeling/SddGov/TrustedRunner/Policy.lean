import SddGov.Python.JsonText
import SddGov.TrustedRunner.Request

/-!
# What an accepted request binds

An accepted request has, in every field of the policy, a value that Python calls
equal to the policy's. It is the same value where its JSON type is the
policy's, and that is also where the environment of the approval payload agrees
with the mode of the runner (`request_exact_iff`).
-/

namespace SddGov.TrustedRunner

open SddGov.Python

/-! ## Equality and types -/

/-- The JSON types, with integers apart from other numbers. -/
inductive JsonType
  | null
  | bool
  | int
  | float
  | string
  | array
  | object
  deriving DecidableEq, Repr

def typeOf : Json → JsonType
  | .null => .null
  | .bool _ => .bool
  | .int _ => .int
  | .float _ => .float
  | .str _ => .string
  | .arr _ => .array
  | .obj _ => .object

@[simp] theorem typeOf_str (s : PyStr) : typeOf (.str s) = .string := rfl
@[simp] theorem typeOf_int (n : Int) : typeOf (.int n) = .int := rfl
@[simp] theorem typeOf_bool (c : Bool) : typeOf (.bool c) = .bool := rfl

/-- The types that the policy's values have. -/
def isPolicyType (t : JsonType) : Bool := t == .string || t == .int || t == .bool

/-- Equal values of one such type are the same value. -/
theorem eq_of_pyEq_type {v w : Json} (h : pyEq v w = true) (htype : typeOf v = typeOf w)
    (hw : isPolicyType (typeOf w) = true) : v = w := by
  cases w with
  | str s => exact (pyEq_str_right _ _).mp h
  | int n =>
    cases v with
    | int m =>
      have hnum : (m : ℚ) = n := by simpa [pyEq, scalarEq, Json.num?] using h
      rw [Int.cast_inj.mp hnum]
    | _ => exact absurd htype (by simp [typeOf])
  | bool b =>
    cases v with
    | bool a => cases a <;> cases b <;> simp_all [pyEq, scalarEq, Json.num?]
    | _ => exact absurd htype (by simp [typeOf])
  | null | float _ | arr _ | obj _ => exact absurd hw (by simp [isPolicyType, typeOf])

/-- Equal objects have equal values under every key of the first. -/
theorem pyEqMembers_lookup {a b : Members} (h : pyEqMembers a b = true) {key : PyStr} {v : Json}
    (hkey : lookup key a = some v) : ∃ w, lookup key b = some w ∧ pyEq v w = true := by
  induction a with
  | nil => exact absurd hkey (by simp [lookup])
  | cons m a ih =>
    obtain ⟨k, u⟩ := m
    simp only [pyEqMembers, Bool.and_eq_true] at h
    unfold lookup at hkey
    by_cases hk : k = key
    · subst hk
      rw [if_pos rfl] at hkey
      obtain rfl := Option.some.inj hkey
      have hfirst := h.1
      split at hfirst
      · next w hw => exact ⟨w, hw, hfirst⟩
      · exact absurd hfirst (by simp)
    · rw [if_neg hk] at hkey
      exact ih h.2 hkey

theorem pyEq_get {a b : Members} (h : pyEq (.obj a) (.obj b) = true) {key : PyStr}
    (hkey : hasKey key a = true) :
    pyEq (get key a) (get key b) = true := by
  simp only [pyEq, Bool.and_eq_true] at h
  obtain ⟨v, hv⟩ := Option.isSome_iff_exists.mp hkey
  obtain ⟨w, hw, heq⟩ := pyEqMembers_lookup h.2 hv
  unfold Python.get
  rw [hv, hw]
  exact heq

theorem hasKey_of_keysEq_keys {m : Members} {names : List PyStr} (h : keysEq m names = true)
    {key : PyStr}
    (hkey : key ∈ names) : hasKey key m = true := by
  unfold keysEq at h
  rw [Bool.and_eq_true, List.all_eq_true, List.all_eq_true] at h
  have hin := h.2 key hkey
  unfold hasKey
  rw [lookup_isSome_iff]
  simpa using hin

/-! ## The policy -/

/-- The members of a value; a value that is no object has none. -/
def membersOf : Json → Members
  | .obj m => m
  | _ => []

section Policy

variable (C : Crypto) (b : Bootstrap)

/-- The launch contract that the operation has to name. -/
def launchContractHash : Json :=
  match launchContract C b with
  | .ok (_, _, contract) => .str contract
  | .error _ => .null

/-- Every policy field of a request with the value that the runner expects there. -/
def policyFields (request : Members) : List (Json × Json) :=
  let operation := membersOf (get (lit "operation") request)
  let containment := membersOf (get (lit "containment_profile") operation)
  let route := membersOf (get (lit "route_profile") operation)
  (expectedValues b (launchContractHash C b)).map (fun m => (get m.1 operation, m.2))
    ++ ((keys expectedContainmentProfile).filter (· != lit "source_hashes")).map
      (fun key => (get key containment, get key expectedContainmentProfile))
    ++ (keys expectedRouteProfile).map (fun key => (get key route, get key (routePolicy operation)))
    ++ (if b.mode = .production then
        managedPaths.map (fun path =>
          (get path (membersOf (get (lit "source_hashes") containment)),
            get path expectedSourceHashes))
        ++ (keys expectedRouteProfile).map (fun key =>
          (get key route, get key expectedRouteProfile))
      else [])
    ++ [(get (lit "rehearsal_only") (membersOf (get (lit "capsule") request)),
      .bool (b.mode == .rehearsal))]

/-- The request binds the policy exactly. -/
structure Exact (request : Members) (v : ValidatedRequest) : Prop where
  /-- every policy field has the expected JSON value -/
  policy : ∀ p ∈ policyFields C b request, p.1 = p.2
  /-- the profiles have no other fields -/
  containment : ∃ profile, get (lit "containment_profile") v.operation = .obj profile
    ∧ keysEq profile (keys expectedContainmentProfile) = true
  route : ∃ profile, get (lit "route_profile") v.operation = .obj profile
    ∧ keysEq profile (keys expectedRouteProfile) = true
  /-- the approval payload is the rehearsal's exactly where the runner rehearses -/
  environment : get (lit "environment")
    (approvalOperationPayload v.operation v.operationId v.planHash)
      = .str (lit "synthetic-offline-rehearsal") ↔ b.mode = .rehearsal

/-- Numbers are written as integers and booleans as booleans, where the policy has them. -/
def TypesMatch (request : Members) : Prop := ∀ p ∈ policyFields C b request, typeOf p.1 = typeOf p.2

/-! ## What acceptance gives -/

variable {C b}

@[simp] theorem check_ok {c : Bool} {reason : String} {u : Unit} :
    check c reason = .ok u ↔ c = true := by
  unfold check
  cases c <;> simp [violation]

theorem object_ok {value : Json} {reason : String} {m : Members} :
    object value reason = .ok m ↔ value = .obj m := by
  cases value <;> simp [object, violation]

/-- A containment profile that is accepted equals the policy. -/
theorem checkContainment_ok {operation : Members} (h : checkContainment C b operation = .ok ()) :
    ∃ profile, get (lit "containment_profile") operation = .obj profile
      ∧ keysEq profile (keys expectedContainmentProfile) = true
      ∧ pyEq (.obj profile) (.obj (containmentPolicy profile)) = true
      ∧ (∃ hashes, get (lit "source_hashes") profile = .obj hashes
        ∧ keysEq hashes managedPaths = true)
      ∧ (b.mode = .production → pyEq (.obj profile) (.obj expectedContainmentProfile) = true) := by
  unfold checkContainment at h
  obtain ⟨profile, hprofile, h⟩ := except_bind_ok.mp h
  obtain ⟨_, hkeys, h⟩ := except_bind_ok.mp h
  obtain ⟨_, heq, h⟩ := except_bind_ok.mp h
  obtain ⟨hashes, hhashes, h⟩ := except_bind_ok.mp h
  obtain ⟨_, hsources, h⟩ := except_bind_ok.mp h
  obtain ⟨hash, -, h⟩ := except_bind_ok.mp h
  obtain ⟨_, -, h⟩ := except_bind_ok.mp h
  rw [check_ok] at hkeys heq hsources h
  rw [Bool.and_eq_true] at hsources
  refine ⟨profile, object_ok.mp hprofile, hkeys, heq, ⟨hashes, object_ok.mp hhashes, hsources.1⟩,
    fun hmode => ?_⟩
  simpa [hmode] using h

/-- A route profile that is accepted equals the policy. -/
theorem checkRoute_ok {operation : Members} (h : checkRoute C b operation = .ok ()) :
    ∃ profile, get (lit "route_profile") operation = .obj profile
      ∧ keysEq profile (keys expectedRouteProfile) = true
      ∧ pyEq (.obj profile) (.obj (routePolicy operation)) = true
      ∧ (b.mode = .production → pyEq (.obj profile) (.obj expectedRouteProfile) = true) := by
  unfold checkRoute at h
  obtain ⟨profile, hprofile, h⟩ := except_bind_ok.mp h
  obtain ⟨_, hkeys, h⟩ := except_bind_ok.mp h
  obtain ⟨_, heq, h⟩ := except_bind_ok.mp h
  obtain ⟨hash, -, h⟩ := except_bind_ok.mp h
  obtain ⟨_, -, h⟩ := except_bind_ok.mp h
  obtain ⟨_, -, h⟩ := except_bind_ok.mp h
  rw [check_ok] at hkeys heq h
  refine ⟨profile, object_ok.mp hprofile, hkeys, heq, fun hmode => ?_⟩
  simpa [hmode] using h

theorem checkCapsule_ok {operation capsule bindings : Members} {operationId planHash : PyStr}
    (h : checkCapsule C operation capsule bindings operationId planHash = .ok ()) :
    pyEq (get (lit "rehearsal_only") capsule) (get (lit "rehearsal_only") operation) = true := by
  unfold checkCapsule at h
  obtain ⟨_, -, h⟩ := except_bind_ok.mp h
  obtain ⟨_, -, h⟩ := except_bind_ok.mp h
  obtain ⟨hash, -, h⟩ := except_bind_ok.mp h
  obtain ⟨_, hflags, -⟩ := except_bind_ok.mp h
  rw [check_ok, Bool.and_eq_true, Bool.and_eq_true] at hflags
  exact hflags.1.2

/-- The descriptor repeats the launch contract. -/
theorem descriptor_launch {authority : Except RunnerError PyStr} {m : Members}
    (h : descriptor C b authority = .ok m) :
    get (lit "launch_contract_hash") m = launchContractHash C b
      ∧ isPolicyType (typeOf (launchContractHash C b)) = true := by
  unfold descriptor at h
  obtain ⟨runnerIdentity, -, h⟩ := except_bind_ok.mp h
  obtain ⟨⟨runtimeIdentity, isolationPolicy, contract⟩, hcontract, h⟩ := except_bind_ok.mp h
  obtain ⟨authorityHash, -, h⟩ := except_bind_ok.mp h
  obtain rfl := Except.ok.inj h
  unfold launchContractHash
  rw [hcontract]
  exact ⟨by simp [Python.get, lookup, field], rfl⟩

/-- Both of the digests that the route repeats are digests. -/
theorem checkDigests_ok {operation : Members} (h : checkDigests C operation = .ok ()) :
    isSha256Text (get (lit "source_tree_hash") operation) = true
      ∧ isSha256Text (get (lit "containment_profile_hash") operation) = true := by
  have hrequire : ∀ {value : Json} {label : PyStr} {u : Unit}, requireSha256 value label = .ok u →
      isSha256Text value = true := by
    intro value label u hvalue
    unfold requireSha256 at hvalue
    split at hvalue
    · assumption
    · exact absurd hvalue (by simp)
  unfold checkDigests at h
  obtain ⟨_, hdigests, -⟩ := except_bind_ok.mp h
  simp only [List.forM] at hdigests
  obtain ⟨_, -, hdigests⟩ := except_bind_ok.mp hdigests
  obtain ⟨_, -, hdigests⟩ := except_bind_ok.mp hdigests
  obtain ⟨_, -, hdigests⟩ := except_bind_ok.mp hdigests
  obtain ⟨_, htree, hdigests⟩ := except_bind_ok.mp hdigests
  obtain ⟨_, -, hdigests⟩ := except_bind_ok.mp hdigests
  obtain ⟨_, hcontainment, -⟩ := except_bind_ok.mp hdigests
  exact ⟨hrequire htree, hrequire hcontainment⟩

/-- What the policy needs of the checks that an accepted request has passed. -/
structure Passed (C : Crypto) (b : Bootstrap) (request : Members) (v : ValidatedRequest) :
    Prop where
  operation : get (lit "operation") request = .obj v.operation
  launch : isPolicyType (typeOf (launchContractHash C b)) = true
  policy : ∀ m ∈ expectedValues b (launchContractHash C b), pyEq (get m.1 v.operation) m.2 = true
  containment : checkContainment C b v.operation = .ok ()
  route : checkRoute C b v.operation = .ok ()
  digests : checkDigests C v.operation = .ok ()
  capsule : ∃ capsule, get (lit "capsule") request = .obj capsule
    ∧ pyEq (get (lit "rehearsal_only") capsule) (get (lit "rehearsal_only") v.operation) = true

/-- What a request has passed when it is accepted, check by check. -/
theorem validateRequest_ok {authority authority' : Except RunnerError PyStr} {request : Members}
    {v : ValidatedRequest} (h : validateRequest C b authority authority' request = .ok v) :
    Passed C b request v := by
  unfold validateRequest at h
  obtain ⟨_, -, h⟩ := except_bind_ok.mp h
  obtain ⟨_, -, h⟩ := except_bind_ok.mp h
  obtain ⟨operation, hoperation, h⟩ := except_bind_ok.mp h
  obtain ⟨capsule, hcapsule, h⟩ := except_bind_ok.mp h
  obtain ⟨_, -, h⟩ := except_bind_ok.mp h
  obtain ⟨launch, hlaunch, h⟩ := except_bind_ok.mp h
  obtain ⟨_, hpolicy, h⟩ := except_bind_ok.mp h
  obtain ⟨_, hcontainment, h⟩ := except_bind_ok.mp h
  obtain ⟨_, hroute, h⟩ := except_bind_ok.mp h
  obtain ⟨bindings, -, h⟩ := except_bind_ok.mp h
  obtain ⟨_, -, h⟩ := except_bind_ok.mp h
  obtain ⟨_, hdigests, h⟩ := except_bind_ok.mp h
  obtain ⟨payload, -, h⟩ := except_bind_ok.mp h
  obtain ⟨⟨operationId, planHash⟩, -, h⟩ := except_bind_ok.mp h
  obtain ⟨given, -, h⟩ := except_bind_ok.mp h
  obtain ⟨_, hchecked, h⟩ := except_bind_ok.mp h
  obtain ⟨⟨approvalId, envelope⟩, -, h⟩ := except_bind_ok.mp h
  obtain rfl := Except.ok.inj h
  obtain ⟨hlaunchHash, htype⟩ := descriptor_launch hlaunch
  refine ⟨object_ok.mp hoperation, htype, ?_, hcontainment, hroute, hdigests, capsule,
    object_ok.mp hcapsule,
    checkCapsule_ok hchecked⟩
  unfold checkPolicy at hpolicy
  rw [check_ok, hlaunchHash] at hpolicy
  exact List.all_eq_true.mp hpolicy

/-! ## Every policy field is equal to the expected one -/

theorem isPolicyType_of_sha256 {v : Json} (h : isSha256Text v = true) :
    isPolicyType (typeOf v) = true := by
  cases v with
  | str s => rfl
  | _ => exact absurd h (by simp [isSha256Text])

/-- A field that Python calls equal to a string, an integer or a boolean. -/
def Matches (p : Json × Json) : Prop := pyEq p.1 p.2 = true ∧ isPolicyType (typeOf p.2) = true

theorem Matches.eq_iff {p : Json × Json} (h : Matches p) : p.1 = p.2 ↔ typeOf p.1 = typeOf p.2 := by
  constructor
  · intro heq
    rw [heq]
  · intro htype
    exact eq_of_pyEq_type h.1 htype h.2

theorem expectedValues_types {hash : Json} (h : isPolicyType (typeOf hash) = true) :
    ∀ m ∈ expectedValues b hash, isPolicyType (typeOf m.2) = true := by
  have hall : ((expectedValues b hash).all fun m => isPolicyType (typeOf m.2)) = true := by
    have hconstants : ∀ {t : JsonType}, t = .string ∨ t = .int ∨ t = .bool →
      isPolicyType t = true := by
      rintro t (rfl | rfl | rfl) <;> rfl
    simp [expectedValues, field, h, hconstants]
  exact List.all_eq_true.mp hall

/-- The constants of the two profiles are strings, integers and booleans, the source hashes
apart. -/
theorem profile_types :
    ((keys expectedContainmentProfile).all fun key =>
        key == lit "source_hashes" || isPolicyType (typeOf (get key expectedContainmentProfile)))
        = true
      ∧ ((keys expectedRouteProfile).all fun key =>
        isPolicyType (typeOf (get key expectedRouteProfile))) = true
      ∧ (managedPaths.all fun path => isPolicyType (typeOf (get path expectedSourceHashes)))
        = true := by
  decide

/-- A containment profile that Python finds equal to the policy matches it in every field. -/
theorem containment_matches {profile : Members}
    (hkeys : keysEq profile (keys expectedContainmentProfile) = true)
    (heq : pyEq (.obj profile) (.obj (containmentPolicy profile)) = true) {key : PyStr}
    (hkey : key ∈ keys expectedContainmentProfile) (hne : key ≠ lit "source_hashes") :
    Matches (get key profile, get key expectedContainmentProfile) := by
  have hfield := pyEq_get heq (hasKey_of_keysEq_keys hkeys hkey)
  unfold containmentPolicy at hfield
  rw [get_setMember_ne _ _ hne] at hfield
  refine ⟨hfield, ?_⟩
  have htype := List.all_eq_true.mp profile_types.1 key hkey
  rw [Bool.or_eq_true, beq_iff_eq] at htype
  exact htype.resolve_left hne

/-- A route profile that Python finds equal to the policy matches it in every field. -/
theorem route_matches {operation profile : Members}
    (hkeys : keysEq profile (keys expectedRouteProfile) = true)
    (heq : pyEq (.obj profile) (.obj (routePolicy operation)) = true)
    (htree : isSha256Text (get (lit "source_tree_hash") operation) = true)
    (hcontainment : isSha256Text (get (lit "containment_profile_hash") operation) = true)
    {key : PyStr}
    (hkey : key ∈ keys expectedRouteProfile) : Matches
    (get key profile, get key (routePolicy operation)) := by
  refine ⟨pyEq_get heq (hasKey_of_keysEq_keys hkeys hkey), ?_⟩
  unfold routePolicy
  -- the two hashes come from the operation, every other field is a constant
  by_cases htreeKey : key = lit "source_tree_hash"
  · subst htreeKey
    rw [get_setMember]
    exact isPolicyType_of_sha256 htree
  rw [get_setMember_ne _ _ htreeKey]
  by_cases hprofileKey : key = lit "containment_profile_hash"
  · subst hprofileKey
    rw [get_setMember]
    exact isPolicyType_of_sha256 hcontainment
  rw [get_setMember_ne _ _ hprofileKey]
  exact List.all_eq_true.mp profile_types.2.1 key hkey

/-- In production the source hashes are compared with the runner's own. -/
theorem sourceHashes_match {profile hashes : Members}
    (heq : pyEq (.obj profile) (.obj expectedContainmentProfile) = true)
    (hkeys : keysEq profile (keys expectedContainmentProfile) = true)
    (hhashes : get (lit "source_hashes") profile = .obj hashes)
    (hpaths : keysEq hashes managedPaths = true)
    {path : PyStr} (hpath : path ∈ managedPaths) :
    Matches (get path hashes, get path expectedSourceHashes) := by
  have hkey : hasKey (lit "source_hashes") profile = true := hasKey_of_keysEq_keys hkeys (by decide)
  have hfield := pyEq_get heq hkey
  rw [hhashes, show get (lit "source_hashes") expectedContainmentProfile
    = .obj expectedSourceHashes by rfl] at hfield
  exact ⟨pyEq_get hfield (hasKey_of_keysEq_keys hpaths hpath),
    List.all_eq_true.mp profile_types.2.2 path hpath⟩

/-- Comparing with a number: every value with that number is equal to it. -/
theorem pyEq_num_right {v w : Json} {q : ℚ} (hw : w.num? = some q) :
    pyEq v w = true ↔ v.num? = some q := by
  cases w with
  | bool _ | int _ =>
    obtain rfl := Option.some.inj hw
    cases v with
    | float x => cases x <;> simp [pyEq, scalarEq, Json.num?, PyFloat.value?]
    | _ => simp [pyEq, scalarEq, Json.num?]
  | float z =>
    cases z with
    | finite neg mag =>
      cases v with
      | float x => cases x <;> simp_all [pyEq, scalarEq, Json.num?, PyFloat.value?]
      | _ => simp_all [pyEq, scalarEq, Json.num?]
    | _ => exact absurd hw (by simp [Json.num?, PyFloat.value?])
  | _ => exact absurd hw (by simp [Json.num?])

/-- Equality with a value that is equal to a boolean. -/
theorem pyEq_trans_bool {u v : Json} {c : Bool} (huv : pyEq u v = true)
    (hv : pyEq v (.bool c) = true) :
    pyEq u (.bool c) = true := by
  have hnum : (Json.bool c).num? = some (if c then 1 else 0) := rfl
  rw [pyEq_num_right hnum] at hv ⊢
  exact (pyEq_num_right hv).mp huv

/-- Every policy field of an accepted request is equal, for Python, to the expected one. -/
theorem policyFields_match {request : Members} {v : ValidatedRequest} (h : Passed C b request v) :
    ∀ p ∈ policyFields C b request, Matches p := by
  obtain ⟨hoperation, hlaunch, hpolicy, hcontainment, hroute, hdigests, capsule, hcapsule, hflag⟩ :=
    h
  obtain ⟨containment, hcontainmentObj, hcontainmentKeys, hcontainmentEq, ⟨hashes, hhashes, hpaths⟩,
    hcontainmentProd⟩ := checkContainment_ok hcontainment
  obtain ⟨route, hrouteObj, hrouteKeys, hrouteEq, hrouteProd⟩ := checkRoute_ok hroute
  obtain ⟨htree, hprofile⟩ := checkDigests_ok hdigests
  have hexpected : ∀ m ∈ expectedValues b (launchContractHash C b),
    Matches (get m.1 v.operation, m.2) :=
    fun m hm => ⟨hpolicy m hm, expectedValues_types hlaunch m hm⟩
  intro p hp
  unfold policyFields at hp
  simp only [hoperation, membersOf, hcontainmentObj, hrouteObj, hhashes, hcapsule, List.mem_append,
    List.mem_map, List.mem_filter, List.mem_singleton] at hp
  rcases hp with (((⟨m, hm, rfl⟩ | ⟨key, ⟨hkey, hne⟩, rfl⟩) | ⟨key, hkey, rfl⟩) | hprod) | rfl
  · exact hexpected m hm
  · exact containment_matches hcontainmentKeys hcontainmentEq hkey (by simpa using hne)
  · exact route_matches hrouteKeys hrouteEq htree hprofile hkey
  · by_cases hmode : b.mode = .production
    · rw [if_pos hmode, List.mem_append, List.mem_map, List.mem_map] at hprod
      rcases hprod with ⟨path, hpath, rfl⟩ | ⟨key, hkey, rfl⟩
      · exact sourceHashes_match (hcontainmentProd hmode) hcontainmentKeys hhashes hpaths hpath
      · exact ⟨pyEq_get (hrouteProd hmode) (hasKey_of_keysEq_keys hrouteKeys hkey),
          List.all_eq_true.mp profile_types.2.1 key hkey⟩
    · rw [if_neg hmode] at hprod
      exact absurd hprod (by simp)
  -- the capsule's flag is equal to the operation's, which is equal to the runner's
  · have hrunner := hexpected (lit "rehearsal_only", .bool (b.mode == .rehearsal))
      (by simp [expectedValues])
    exact ⟨pyEq_trans_bool hflag hrunner.1, hrunner.2⟩

/-- The payload's environment is read off the identity of the flag. -/
theorem environment_text {operation : Members} {operationId planHash : PyStr} :
    get (lit "environment") (approvalOperationPayload operation operationId planHash)
      = .str (if Python.isTrue (get (lit "rehearsal_only") operation) then
        lit "synthetic-offline-rehearsal"
          else lit "production") := by
  generalize hflag : get (lit "rehearsal_only") operation = flag
  unfold approvalOperationPayload
  rw [hflag]
  rfl

theorem environment_rehearsal {operation : Members} {operationId planHash : PyStr} :
    get (lit "environment") (approvalOperationPayload operation operationId planHash)
        = .str (lit "synthetic-offline-rehearsal") ↔ Python.isTrue
        (get (lit "rehearsal_only") operation) = true := by
  have hne : ¬ lit "production" = lit "synthetic-offline-rehearsal" := by decide
  rw [environment_text]
  cases Python.isTrue (get (lit "rehearsal_only") operation) <;> simp [hne]

/-- An accepted request binds the policy exactly, if and only if its numbers and booleans are
written with the JSON types of the policy. -/
theorem request_exact_iff {authority authority' : Except RunnerError PyStr} {request : Members}
    {v : ValidatedRequest} (h : validateRequest C b authority authority' request = .ok v) :
    Exact C b request v ↔ TypesMatch C b request := by
  have hpassed := validateRequest_ok h
  have hmatch := policyFields_match hpassed
  constructor
  · intro hexact p hp
    rw [hexact.policy p hp]
  · intro htypes
    have hpolicy : ∀ p ∈ policyFields C b request, p.1 = p.2 :=
      fun p hp => (hmatch p hp).eq_iff.mpr (htypes p hp)
    obtain ⟨containment, hcontainmentObj, hcontainmentKeys, -⟩ :=
      checkContainment_ok hpassed.containment
    obtain ⟨route, hrouteObj, hrouteKeys, -⟩ := checkRoute_ok hpassed.route
    refine ⟨hpolicy, ⟨containment, hcontainmentObj, hcontainmentKeys⟩,
      ⟨route, hrouteObj, hrouteKeys⟩, ?_⟩
    have hflag : get (lit "rehearsal_only") v.operation = .bool (b.mode == .rehearsal) := by
      apply hpolicy (get (lit "rehearsal_only") v.operation, .bool (b.mode == .rehearsal))
      unfold policyFields
      simp only [hpassed.operation, membersOf, List.mem_append, List.mem_map]
      refine .inl
        (.inl (.inl (.inl ⟨(lit "rehearsal_only", .bool (b.mode == .rehearsal)), ?_, rfl⟩)))
      simp [expectedValues]
    rw [environment_rehearsal, hflag]
    simp [Python.isTrue]

end Policy

/-! ## A rehearsal whose flag is `1` -/

/-- A digest that the sample is given and never asked for. -/
def givenDigest : PyStr := hexDigest
    0x5b729e0f619797fd61108a4bb177273222ad9ac5538299c8386f061e29046e60

def givenHash : PyStr := lit "sha256:" ++ givenDigest

def containmentDigest : Nat := 0x9f276ddbe0a6fc57e662ebc8dc7fe6542dea7d6af9b34f5ceec977114510d2de

def routeDigest : Nat := 0xaa46f76390fa68d5773832d8ae110db072eabdb3e1ea681ade0f89d9b131a3b2

def launchDigest : Nat := 0xd94b96d48226f7e5227c446cb0e774aa0f75ed87eaf696113e24196adc6d7981

def bindingsDigest : Nat := 0x1cef2f117aa6b0a86f7867e4fa73ad13e14ab4234cb5c1945c70ef7f95c06796

/-- The digest of the operation without its id, by the flag. -/
def planDigest (flag : Json) : Nat :=
  if Python.isTrue flag then 0x2eadfbef780f15294175f7c63fef11440d30d1067e628029d87c550c5adf8147
  else 0x56b925d73e8a4c711eb879be908389eff0bdb4a67d37013610aa63b64b1785e7

/-- The real digests of what the sample digests. The length of an input stands for it here, and for
the paths also the character behind their first seven. -/
def rehearsalDigests : List ((Nat × Nat) × Nat) :=
  [((92, 0x61), 0x20e41f44b33075df163408391c480bc231ff97cd34d273dbac80e7dfb6962436),
    ((121, 0x6D), 0x1c6bf8e3c36c5ce91bc34c3870443b87f2edf7d517cfca4cb0c3fc71a6477a6b),
    ((10, 0x70), 0x218bcd8d738d0f2d1444fb7b9300a6aca9403cde242852c7f442f7aa4f607482),
    ((195, 0x75), 0xea528852483f404e885f37fc6b99f827b68d3cce32b4132d953fb9188255cc46),
    ((403, 0x69), launchDigest), ((693, 0x61), containmentDigest), ((739, 0x73), routeDigest),
    ((18, 0x65), 0xbf1a33c1ea10970448e2d9fff626b75b4cab9ad8b6d4b56d67dcc6d244b5d376),
    ((25, 0x75), 0xdee5eb94ef056ec8c577d8ade8fa273de8ed39bbe432a5558c70aed1a0dcd148),
    ((18, 0x63), 0xe825306db184b279a70d9859b6c7f4dfe6d0aee4b4ac3ac0d172d110162a4c1b),
    ((31, 0x2F), 0x96ca58e7d400b944f85d5f5592b31089991d91739f8714d17f954182d522da4a),
    ((25, 0x72), 0x55f4d90825aea9ef9bd556f5a6a1b3451430968ec100d03fb40a79d932172e72),
    ((1, 0), 0x559aead08264d5795d3909718cdd05abd49572e84fe55590eef31a88a08fdffd),
    ((3912, 0x6E), planDigest (.bool true)), ((3909, 0x6E), planDigest (.int 1)),
      ((725, 0x76), bindingsDigest)]

def rehearsalCrypto : Crypto where
  sha256 data :=
    hexDigest ((rehearsalDigests.lookup (data.length, (data.getD 7 (byte 0)).val)).getD 0)
  verifies _ _ _ := false

/-- A digest as the contract writes it. -/
def hashText (digest : Nat) : PyStr := lit "sha256:" ++ hexDigest digest

def rehearsalBootstrap : Bootstrap where
  runnerId := lit "runner"
  mode := .rehearsal
  serviceUid := 1000
  resultPublicKey := lit "key"
  runtimeSha256 := givenDigest
  runtimeArgv := [lit "/usr/bin/runtime"]
  credentialRef := lit "credential"
  credentialBindingHash := givenHash
  isolationParent := lit "/var/empty"

/-- The id of the operation with this flag. -/
def rehearsalId (flag : Json) : PyStr := actionId ++ lit "@" ++ hexDigest (planDigest flag)

/-- An operation for the rehearsal with the given flag. -/
def rehearsalOperation (flag : Json) : Members :=
  let profiles : Members := [(lit "source_tree_hash", .str givenHash),
    (lit "containment_profile_hash", .str (hashText containmentDigest))]
  setMember (lit "rehearsal_only") flag
    (expectedValues rehearsalBootstrap (.str (hashText launchDigest))) ++ profiles
    ++ [field "contract_version" "0.3",
      (lit "input_payload_hash", .str
        (hashText 0x559aead08264d5795d3909718cdd05abd49572e84fe55590eef31a88a08fdffd)),
      (lit "sealed_bundle_hash", .str givenHash), (lit "sealed_bundle_size_bytes", .int 1),
      (lit "sealed_bundle_entry_count", .int 1),
      (lit "managed_hashes", .obj (managedPaths.map fun path => (path, .str givenHash))),
      (lit "external_bindings", .obj
        (match descriptor rehearsalCrypto rehearsalBootstrap
          (.ok givenHash) with | .ok m => m | .error _ => [])),
      (lit "route_profile_hash", .str (hashText routeDigest)),
        (lit "route_profile", .obj (routePolicy profiles)),
      (lit "containment_profile", .obj expectedContainmentProfile),
      (lit "operation_id", .str (rehearsalId flag))]

/-- A request for an operation with this flag, which the capsule repeats. -/
def rehearsalRequest (flag : Json) (operation : Members) : Members :=
  let operationId := rehearsalId flag
  let planHash := hashText (planDigest flag)
  [field "schema_version" "0.1", (lit "operation", .obj operation),
    (lit "capsule", .obj ([field "contract_version" "0.3", (lit "operation_id", .str operationId),
      (lit "plan_hash", .str planHash), (lit "sealed_bundle_hash", .str givenHash),
      (lit "external_bindings_hash", .str (hashText bindingsDigest)),
        (lit "environment_hash", .str givenHash),
      (lit "rehearsal_only", flag)] ++ deniedCapsuleFields.map fun key => (key, .bool false))),
    field "sealed_bundle_delivery" "inherited-sealed-fd", (lit "approval_required", .bool true),
    field "credential_delivery" "external-runner-private-fd", field "approval_id" "approval",
    (lit "approval_envelope", .obj [(lit "receipt", .obj [field "approval_id" "approval",
      (lit "operation_id", .str operationId), (lit "scope", .str operationId),
      (lit "operation_payload", .obj (approvalOperationPayload operation operationId planHash))])]),
    field "input_payload_b64" "QQ=="]

/-- Whether the runner accepts it. -/
def rehearsalVerdict (flag : Json) (operation : Members) : Except RunnerError ValidatedRequest :=
  validateRequest rehearsalCrypto rehearsalBootstrap (.ok givenHash) (.ok givenHash)
    (rehearsalRequest flag operation)

/-- The runner accepts both flags, and for the first one also the members in another order. -/
theorem rehearsalVerdicts_ok :
    ((rehearsalVerdict (.bool true) (rehearsalOperation (.bool true))).isOk
      && (rehearsalVerdict (.int 1) (rehearsalOperation (.int 1))).isOk
      && (rehearsalVerdict (.bool true) (rehearsalOperation (.bool true)).reverse).isOk)
        = true := by
  decide +kernel

theorem rehearsal_true_ok : (rehearsalVerdict (.bool true) (rehearsalOperation (.bool true))).isOk
    = true := by
  have hok := rehearsalVerdicts_ok
  simp only [Bool.and_eq_true] at hok
  exact hok.1.1

theorem rehearsal_one_ok : (rehearsalVerdict (.int 1) (rehearsalOperation (.int 1))).isOk
    = true := by
  have hok := rehearsalVerdicts_ok
  simp only [Bool.and_eq_true] at hok
  exact hok.1.2

theorem rehearsal_reversed_ok :
    (rehearsalVerdict (.bool true) (rehearsalOperation (.bool true)).reverse).isOk = true := by
  have hok := rehearsalVerdicts_ok
  simp only [Bool.and_eq_true] at hok
  exact hok.2

theorem rehearsal_operation {flag : Json} {operation : Members} {v : ValidatedRequest}
    (h : rehearsalVerdict flag operation = .ok v) : v.operation = operation :=
  (Json.obj.inj
    ((show get (lit "operation") (rehearsalRequest flag operation)
    = .obj operation from rfl).symm.trans
    (validateRequest_ok h).operation)).symm

/-- A rehearsing runner accepts a request that is approved for production. -/
theorem request_one_for_true : ∃ v, rehearsalVerdict (.int 1) (rehearsalOperation (.int 1)) = .ok v
    ∧ ¬ Exact rehearsalCrypto rehearsalBootstrap
      (rehearsalRequest (.int 1) (rehearsalOperation (.int 1))) v
    ∧ get (lit "environment") (approvalOperationPayload v.operation v.operationId v.planHash)
      = .str (lit "production") := by
  obtain ⟨v, hv⟩ := exists_of_isOk rehearsal_one_ok
  have hflag : get (lit "rehearsal_only") v.operation = .int 1 := by
    rw [rehearsal_operation hv]
    rfl
  refine ⟨v, hv, fun hexact => ?_, ?_⟩
  · have htrue := environment_rehearsal.mp (hexact.environment.mpr rfl)
    rw [hflag] at htrue
    exact absurd htrue (by simp [Python.isTrue])
  · rw [environment_text, hflag]
    rfl

/-- With the flag `true` the request is exact. -/
theorem request_exact_sample : ∃ v, rehearsalVerdict (.bool true)
    (rehearsalOperation (.bool true)) = .ok v
    ∧ Exact rehearsalCrypto rehearsalBootstrap
      (rehearsalRequest (.bool true) (rehearsalOperation (.bool true))) v := by
  obtain ⟨v, hv⟩ := exists_of_isOk rehearsal_true_ok
  have htypes : ((policyFields rehearsalCrypto rehearsalBootstrap
      (rehearsalRequest (.bool true) (rehearsalOperation (.bool true)))).all fun p =>
        typeOf p.1 == typeOf p.2) = true := by
    decide +kernel
  exact ⟨v, hv, (request_exact_iff hv).mpr fun p hp => eq_of_beq (List.all_eq_true.mp htypes p hp)⟩

end SddGov.TrustedRunner
