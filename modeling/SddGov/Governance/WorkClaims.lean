import SddGov.Governance.Host

/-!
# Work claims

`claim_work` reads the claims, drops those that are over, and writes the rest
back with the new one. `parseExpiry`, `isActive` and `activeClaims` are its
loop; `grantClaim` is everything it decides between the read and the write.
-/

namespace SddGov.Governance

open SddGov.Effect SddGov.Python

/-! ## The loop over the claims -/

/-- `datetime.fromisoformat(claim["expires_at"].replace("Z", "+00:00"))`, in microseconds
once it is compared with an aware time. -/
def parseExpiry (claim : Json) : Except Exn Int :=
  match item claim "expires_at" with
  | .error e => .error e
  | .ok (.str text) =>
    match fromisoformat (replaceZulu text) with
    | none => .error (valueError "Invalid isoformat string")
    | some p =>
      match p.offset with
      | none => .error .type
      | some offset => .ok (p.micros offset)
  | .ok _ => .error .attribute

/-- `expiry > current and claim["status"] == "active"`. -/
def isActive (current : Instant) (claim : Json) : Except Exn Bool :=
  match parseExpiry claim with
  | .error e => .error e
  | .ok expiry =>
    if (current.val : Int) < expiry then
      (item claim "status").map (pyEq · (.str (lit "active")))
    else .ok false

/-- The claims that are kept. -/
def activeClaims (current : Instant) : List Json → Except Exn (List Json)
  | [] => .ok []
  | claim :: rest =>
    match isActive current claim with
    | .error e => .error e
    | .ok keep => (activeClaims current rest).map fun active =>
        if keep then claim :: active else active

/-- `any(row["work_package"] == work_package for row in active)`. -/
def anyPackage (workPackage : PyStr) : List Json → Except Exn Bool
  | [] => .ok false
  | row :: rest =>
    match item row "work_package" with
    | .error e => .error e
    | .ok package => if pyEq package (.str workPackage) then .ok true else
        anyPackage workPackage rest

/-! ## `claim_work` -/

/-- The arguments of a call. -/
structure ClaimRequest where
  workPackage : PyStr
  agent : PyStr
  ttlMinutes : Int
  deriving DecidableEq

/-- The new claim; `OverflowError` where it would end after year 9999. -/
def newClaim (req : ClaimRequest) (current : Instant) : Except Exn Json :=
  match current.add? (minutes req.ttlMinutes) with
  | none => .error .overflow
  | some expiry =>
    .ok (.obj [(lit "work_package", .str req.workPackage), (lit "agent", .str req.agent),
      (lit "status", .str (lit "active")), (lit "claimed_at", .str (stamp current)),
      (lit "expires_at", .str (stamp expiry))])

/-- What a call makes of the claims it has read: the new claim and the new content. -/
def grantClaim (req : ClaimRequest) (current : Instant) (data : Json) :
    Except Exn (Json × Json) := do
  let rows ← (item data "claims").bind elements
  let active ← activeClaims current rows
  let taken ← anyPackage req.workPackage active
  if taken then
    .error (.value (lit "work package already has an active claim: " ++ req.workPackage))
  else do
    let claim ← newClaim req current
    match data with
    | .obj m => .ok (claim, .obj (setMember (lit "claims") (.arr (active ++ [claim])) m))
    | _ => .error .type

/-- The content of a file that does not exist. -/
def noClaims : Json := .obj [(lit "schema_version", .str (lit "1.0")), (lit "claims", .arr [])]

def claimWork (req : ClaimRequest) : HostProg Json :=
  if req.ttlMinutes < 1 ∨ 1440 < req.ttlMinutes then
    .raise (valueError "ttl_minutes must be between 1 and 1440")
  else do
    let data ← readJson .workClaims noClaims
    let current ← ask .now
    let (claim, content) ← Prog.ofExcept (grantClaim req current data)
    writeJson .workClaims content
    emitEvent (lit "work_claimed") (lit "L0") claim
    pure claim

/-! ## What the decision says -/

/-- The claim counts as active at that time. -/
def Active (current : Instant) (claim : Json) : Prop := isActive current claim = .ok true

instance (current : Instant) (claim : Json) : Decidable (Active current claim) :=
  inferInstanceAs (Decidable (isActive current claim = .ok true))

/-- The work package of a claim. -/
def packageOf (claim : Json) : Except Exn Json := item claim "work_package"

/-- The claims in the content of the file. -/
def claimsOf (data : Json) : List Json := ((item data "claims").bind elements).toOption.getD []

/-- What was active later was active before. -/
theorem Active.anti {t t' : Instant} {claim : Json} (h : Active t' claim) (ht : t.val ≤ t'.val) :
    Active t claim := by
  unfold Active isActive at h ⊢
  split at h
  · exact absurd h (by simp)
  · next expiry hexp =>
    split at h
    · rw [if_pos (by omega)]
      exact h
    · exact absurd h (by simp)

/-- The active claims are the rows that are active at the time. -/
theorem mem_activeClaims {current : Instant} {rows active : List Json}
    (h : activeClaims current rows = .ok active) {claim : Json} :
    claim ∈ active ↔ claim ∈ rows ∧ Active current claim := by
  induction rows generalizing active with
  | nil =>
    obtain rfl := Except.ok.inj h
    simp
  | cons row rest ih =>
    unfold activeClaims at h
    split at h
    · exact absurd h (by simp)
    · next keep hkeep =>
      cases hrest : activeClaims current rest with
      | error e => rw [hrest] at h; exact absurd h (by simp [Except.map])
      | ok kept =>
        rw [hrest] at h
        obtain rfl := Except.ok.inj h
        have := ih hrest
        cases keep with
        | true =>
          show claim ∈ row :: kept ↔ _
          rw [List.mem_cons, List.mem_cons, this]
          constructor
          · rintro (rfl | ⟨hm, ha⟩)
            · exact ⟨.inl rfl, hkeep⟩
            · exact ⟨.inr hm, ha⟩
          · rintro ⟨rfl | hm, ha⟩
            · exact .inl rfl
            · exact .inr ⟨hm, ha⟩
        | false =>
          show claim ∈ kept ↔ _
          rw [List.mem_cons, this]
          constructor
          · rintro ⟨hm, ha⟩
            exact ⟨.inr hm, ha⟩
          · rintro ⟨rfl | hm, ha⟩
            · exact absurd (hkeep.symm.trans ha) (by simp)
            · exact ⟨hm, ha⟩

/-- Where no active claim has the package, each of them has another one. -/
theorem anyPackage_false {workPackage : PyStr} {active : List Json}
    (h : anyPackage workPackage active = .ok false) {claim : Json} (hm : claim ∈ active) :
    ∃ p, packageOf claim = .ok p ∧ p ≠ .str workPackage := by
  induction active with
  | nil => exact absurd hm (by simp)
  | cons row rest ih =>
    unfold anyPackage at h
    split at h
    · exact absurd h (by simp)
    · next package hp =>
      split at h
      · exact absurd h (by simp)
      · next hne =>
        rcases List.mem_cons.mp hm with rfl | hm
        · -- the row that was compared
          refine ⟨package, hp, ?_⟩
          rintro rfl
          exact hne ((pyEq_str_right _ _).mpr rfl)
        · exact ih h hm

/-- A granted claim names its package, every active claim of the old content names
another one, and the new content is the active claims of the old one and the claim. -/
theorem grantClaim_ok {req : ClaimRequest} {current : Instant} {data claim content : Json}
    (h : grantClaim req current data = .ok (claim, content)) :
    packageOf claim = .ok (.str req.workPackage)
      ∧ ∃ active, claimsOf content = active ++ [claim]
        ∧ (∀ c, c ∈ active ↔ c ∈ claimsOf data ∧ Active current c)
        ∧ ∀ c ∈ active, ∃ p, packageOf c = .ok p ∧ p ≠ .str req.workPackage := by
  unfold grantClaim at h
  cases hrows : (item data "claims").bind elements with
  | error e => rw [hrows] at h; exact absurd h (by simp [Bind.bind, Except.bind])
  | ok rows =>
  cases hactive : activeClaims current rows with
  | error e => rw [hrows] at h; simp [Bind.bind, Except.bind, hactive] at h
  | ok active =>
  cases htaken : anyPackage req.workPackage active with
  | error e => rw [hrows] at h; simp [Bind.bind, Except.bind, hactive, htaken] at h
  | ok taken =>
  rw [hrows] at h
  simp only [Bind.bind, Except.bind, hactive, htaken] at h
  split at h
  · exact absurd h (by simp)
  · next hnot =>
    obtain rfl : taken = false := by simpa using hnot
    cases hclaim : newClaim req current with
    | error e => rw [hclaim] at h; exact absurd h (by simp)
    | ok new =>
      rw [hclaim] at h
      dsimp only at h
      split at h
      · next m =>
        obtain ⟨rfl, rfl⟩ := Prod.mk.inj (Except.ok.inj h)
        refine ⟨?_, active, ?_, ?_, fun c hc => anyPackage_false htaken hc⟩
        · unfold newClaim at hclaim
          split at hclaim
          · exact absurd hclaim (by simp)
          · obtain rfl := Except.ok.inj hclaim
            rfl
        · simp [claimsOf, item, lookup_setMember, elements, Except.bind, Except.toOption]
        · intro c
          rw [mem_activeClaims hactive]
          unfold claimsOf
          rw [hrows]
          rfl
      · exact absurd h (by simp)

end SddGov.Governance
