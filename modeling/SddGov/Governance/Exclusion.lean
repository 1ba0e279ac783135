import SddGov.Effect.Machine
import SddGov.Governance.WorkClaims

/-!
# Exclusion of work claims

`claim_work` takes no lock: the file is read, and later replaced by what was
made of that read. `ClaimWorld` is the file with the clock, and remembers what
has been granted and how much of that each call had been granted before it
read.

A replacement is *disturbed* when it drops a claim granted since the call read
the file and still active. It then ends the exclusion, one way or the other
(`disturbed_not_exclusive`), and nothing else does, so a run is exclusive
exactly as long as no replacement is disturbed (`claims_exclusive_iff`). Two
calls that overlap are enough (`overlapping_claims`).
-/

namespace SddGov.Governance

open SddGov.Effect SddGov.Python

variable {ι : Type}

/-! ## The file under many calls -/

/-- The claims file, the clock, and what has happened. -/
structure ClaimWorld (ι : Type) where
  /-- no file, a text `json.loads` refuses, or a value -/
  file : Option (Except Exn Json)
  clock : Instant
  /-- every claim granted so far, in order: a claim is granted by the move that records it -/
  granted : List Json
  /-- how many claims had been granted when the call read the file -/
  seen : ι → Nat

/-- What reading the file answers. -/
def fileAnswer : Option (Except Exn Json) → Except Exn (Option Json)
  | none => .ok none
  | some (.ok v) => .ok (some v)
  | some (.error e) => .error e

/-- The claims in the file. -/
def ClaimWorld.claims (w : ClaimWorld ι) : List Json :=
  match w.file with
  | some (.ok v) => claimsOf v
  | _ => []

/-- The file is read and replaced as a whole, the clock only goes forward, and
any system call can fail. -/
def claimSem [DecidableEq ι] : Sem ι (ClaimWorld ι) hostSig where
  allows _ w o r :=
    match o, r with
    | .readJson .workClaims, r => r = fileAnswer w.file ∨ r = .error (.os .other)
    | .now, r => r = w.clock
    | _, _ => True
  next i w o r :=
    match o, r with
    | .readJson .workClaims, .ok _ =>
      { w with seen := Function.update w.seen i w.granted.length }
    | .replace .workClaims v, .ok _ =>
      { w with file := some (.ok v), granted := w.granted ++ (claimsOf v).getLast?.toList }
    | _, _ => w
  exit _ w := w
  env w w' := ∃ t : Instant, w.clock.val ≤ t.val ∧ w' = { w with clock := t }

/-- Both claims are for one work package. -/
def SamePackage (a b : Json) : Prop := ∃ p, packageOf a = .ok p ∧ packageOf b = .ok p

/-- No two active claims for one package have been granted, and no granted
claim that is still active is missing from the file. -/
structure Exclusive (w : ClaimWorld ι) : Prop where
  single : w.granted.Pairwise fun a b => Active w.clock a → Active w.clock b → ¬SamePackage a b
  kept : ∀ claim ∈ w.granted, Active w.clock claim → claim ∈ w.claims

/-- The file holds no active claim that was not granted. -/
def Genuine (w : ClaimWorld ι) : Prop := ∀ claim ∈ w.claims, Active w.clock claim →
    claim ∈ w.granted

/-- When the file is replaced, what was granted since the call read it is over. -/
def Undisturbed (i : ι) (w : ClaimWorld ι) (o : HostOp) (r : hostSig.Resp o) : Prop :=
  match o, r with
  | .replace .workClaims _, .ok _ => ∀ claim ∈ w.granted.drop (w.seen i), ¬Active w.clock claim
  | _, _ => True

/-- A world, and calls that have not begun; `none` is a process that makes no call. -/
def startClaims (w : ClaimWorld ι) (jobs : ι → Option ClaimRequest) :
    Conf ι (ClaimWorld ι) hostSig Exn Json :=
  ⟨w, fun i => (jobs i).map claimWork⟩

/-! ## One replacement -/

/-- What a call knows of the file it has read: the claims in it that are still
active are those that had been granted by then. -/
structure HasRead (i : ι) (data : Json) (w : ClaimWorld ι) : Prop where
  le : w.seen i ≤ w.granted.length
  kept : ∀ claim ∈ w.granted.take (w.seen i), Active w.clock claim → claim ∈ claimsOf data
  genuine : ∀ claim ∈ claimsOf data, Active w.clock claim → claim ∈ w.granted.take (w.seen i)

/-- Time has passed and claims have been granted. -/
structure Later (w w' : ClaimWorld ι) : Prop where
  clock : w.clock.val ≤ w'.clock.val
  granted : w.granted <+: w'.granted

theorem Later.refl (w : ClaimWorld ι) : Later w w := ⟨le_refl _, List.prefix_refl _⟩

theorem Later.trans {w₁ w₂ w₃ : ClaimWorld ι} (h : Later w₁ w₂) (h' : Later w₂ w₃) :
    Later w₁ w₃ :=
  ⟨h.clock.trans h'.clock, h.granted.trans h'.granted⟩

/-- What a process has read stays read. -/
theorem HasRead.later {i : ι} {data : Json} {w w' : ClaimWorld ι} (h : HasRead i data w)
    (hl : Later w w') (hs : w'.seen i = w.seen i) : HasRead i data w' := by
  obtain ⟨new, hnew⟩ := hl.granted
  constructor
  · rw [hs, ← hnew, List.length_append]
    exact h.le.trans (Nat.le_add_right _ _)
  · intro claim hm ha
    rw [hs, ← hnew, List.take_append_of_le_length h.le] at hm
    exact h.kept claim hm (ha.anti hl.clock)
  · intro claim hm ha
    rw [hs, ← hnew, List.take_append_of_le_length h.le]
    exact h.genuine claim hm (ha.anti hl.clock)

/-- Claims only ever stop being active. -/
theorem Exclusive.tick {w : ClaimWorld ι} (h : Exclusive w) {t : Instant}
    (ht : w.clock.val ≤ t.val) : Exclusive { w with clock := t } where
  single := h.single.imp fun hab ha hb => hab (ha.anti ht) (hb.anti ht)
  kept claim hm ha := h.kept claim hm (ha.anti ht)

theorem Genuine.tick {w : ClaimWorld ι} (h : Genuine w) {t : Instant}
    (ht : w.clock.val ≤ t.val) : Genuine { w with clock := t } :=
  fun claim hm ha => h claim hm (ha.anti ht)

/-- The file has been read as `data`, and the clock as `current` after that. -/
def Decided (i : ι) (data : Json) (current : Instant) (w : ClaimWorld ι) : Prop :=
  HasRead i data w ∧ current.val ≤ w.clock.val

/-- The world after a replacement. -/
def ClaimWorld.grant (w : ClaimWorld ι) (content claim : Json) : ClaimWorld ι :=
  { w with file := some (.ok content), granted := w.granted ++ [claim] }

section Replacement

variable {i : ι} {w : ClaimWorld ι} {req : ClaimRequest} {data claim content : Json}
  {current : Instant}

/-- The file as a call leaves it: where nothing active was granted since it read,
the replacement keeps every active claim and adds one for a package that had none. -/
theorem Exclusive.replace (h : Exclusive w) (hd : Decided i data current w)
    (hg : grantClaim req current data = .ok (claim, content))
    (hu : ∀ c ∈ w.granted.drop (w.seen i), ¬Active w.clock c) :
    Exclusive (w.grant content claim) := by
  obtain ⟨hpack, active, hcontent, hactive, hfree⟩ := grantClaim_ok hg
  have hold : ∀ c ∈ w.granted, Active w.clock c → c ∈ active := by
    intro c hc ha
    rw [← List.take_append_drop (w.seen i) w.granted, List.mem_append] at hc
    rcases hc with hc | hc
    · exact (hactive c).mpr ⟨hd.1.kept c hc ha, ha.anti hd.2⟩
    · exact absurd ha (hu c hc)
  constructor
  · show (w.granted ++ [claim]).Pairwise _
    rw [List.pairwise_append]
    refine ⟨h.single, List.pairwise_singleton _ _, ?_⟩
    intro a ha b hb hact _
    obtain rfl := List.mem_singleton.mp hb
    rintro ⟨p, hpa, hpb⟩
    obtain ⟨q, hq, hne⟩ := hfree a (hold a ha hact)
    rw [hpack] at hpb
    rw [hpa] at hq
    obtain rfl := Except.ok.inj hpb
    exact hne (Except.ok.inj hq).symm
  · intro c hc ha
    show c ∈ claimsOf content
    rw [hcontent, List.mem_append]
    rcases List.mem_append.mp hc with hc | hc
    · exact .inl (hold c hc ha)
    · exact .inr hc

/-- What was granted on claims that are genuine is genuine. -/
theorem Genuine.replace (hd : Decided i data current w)
    (hg : grantClaim req current data = .ok (claim, content)) :
    Genuine (w.grant content claim) := by
  obtain ⟨-, active, hcontent, hactive, -⟩ := grantClaim_ok hg
  intro c hc ha
  have hc : c ∈ claimsOf content := hc
  show c ∈ w.granted ++ [claim]
  rw [hcontent, List.mem_append] at hc
  rw [List.mem_append]
  rcases hc with hc | hc
  · exact .inl (List.mem_of_mem_take (hd.1.genuine c ((hactive c).mp hc).1 ha))
  · exact .inr hc

/-- A replacement that drops a claim granted since the read ends the exclusion:
the claim is missing from the file, or it was granted a second time. -/
theorem disturbed_not_exclusive (h : Exclusive w) (hd : Decided i data current w)
    (hg : grantClaim req current data = .ok (claim, content)) {c : Json}
    (hc : c ∈ w.granted.drop (w.seen i)) (ha : Active w.clock c) :
    ¬Exclusive (w.grant content claim) := by
  obtain ⟨hpack, active, hcontent, hactive, hfree⟩ := grantClaim_ok hg
  intro h'
  have hgranted : c ∈ w.granted := List.mem_of_mem_drop hc
  have hfile : c ∈ claimsOf content := h'.kept c (List.mem_append_left _ hgranted) ha
  rw [hcontent, List.mem_append] at hfile
  rcases hfile with hfile | hfile
  · -- it was in the file that was read, so it has been granted twice
    have htake := hd.1.genuine c ((hactive c).mp hfile).1 ha
    have hpair := h.single
    rw [← List.take_append_drop (w.seen i) w.granted, List.pairwise_append] at hpair
    obtain ⟨p, hp, -⟩ := hfree c hfile
    exact hpair.2.2 c htake c hc ha ha ⟨p, hp, hp⟩
  · -- it is the new claim
    obtain rfl := List.mem_singleton.mp hfile
    have hpair : (w.granted ++ [c]).Pairwise _ := h'.single
    rw [List.pairwise_append] at hpair
    exact hpair.2.2 c hgranted c (List.mem_singleton.mpr rfl) ha ha ⟨_, hpack, hpack⟩

end Replacement

/-! ## Every interleaving -/

variable [DecidableEq ι]

/-- Exclusion is the invariant. A call relies on its own reading place, and
replaces the file by what it has decided. -/
def claimDiscipline : Discipline ((@claimSem ι _).restrict Undisturbed) Unit where
  inv s := Exclusive s.1 ∧ Genuine s.1
  pre i o s :=
    match o with
    | .replace .workClaims content => ∃ req data current claim,
        grantClaim req current data = .ok (claim, content) ∧ Decided i data current s.1
    | _ => True
  rely j s s' := Later s.1 s'.1 ∧ ∀ i, j = some i → s'.1.seen i = s.1.seen i
  refl _ s := ⟨.refl s.1, fun _ _ => rfl⟩
  trans _ _ _ _ h h' := ⟨h.1.trans h'.1, fun i hi => (h'.2 i hi).trans (h.2 i hi)⟩
  exit _ s h := ⟨(), h, fun _ _ => ⟨.refl s.1, fun _ _ => rfl⟩⟩
  env s w h he := by
    obtain ⟨t, ht, rfl⟩ := he
    exact ⟨(), ⟨h.1.tick ht, h.2.tick ht⟩, fun _ => ⟨⟨ht, List.prefix_refl _⟩, fun _ _ => rfl⟩⟩

/-- A call on anything but the claims file. -/
def HostOp.sparesClaims : HostOp → Bool
  | .readJson .workClaims => false
  | .replace .workClaims _ => false
  | _ => true

/-- A call that spares the claims leaves the world as it is. -/
theorem next_spares {i : ι} {w : ClaimWorld ι} {o : HostOp} (h : o.sparesClaims = true)
    (r : hostSig.Resp o) : claimSem.next i w o r = w := by
  unfold HostOp.sparesClaims at h
  split at h
  · exact absurd h (by simp)
  · exact absurd h (by simp)
  · next hread hreplace =>
    simp only [claimSem]
    split
    · exact (hread rfl).elim
    · exact (hreplace _ rfl).elim
    · rfl

/-- A call that spares the claims needs nothing of the discipline. -/
theorem quiet_spares (i : ι) {o : HostOp} (h : o.sparesClaims = true) :
    claimDiscipline.Quiet i o := by
  intro s hi
  constructor
  · unfold HostOp.sparesClaims at h
    simp only [claimDiscipline]
    split
    · exact absurd h (by simp)
    · trivial
  · intro r _
    have hnext : claimSem.next i s.1 o r = s.1 := next_spares h r
    refine ⟨(), ?_, fun _ => ?_⟩
    · show Exclusive (claimSem.next i s.1 o r) ∧ Genuine (claimSem.next i s.1 o r)
      rw [hnext]
      exact hi
    · show Later s.1 (claimSem.next i s.1 o r) ∧ ∀ j, _ → (claimSem.next i s.1 o r).seen j = _
      rw [hnext]
      exact ⟨.refl _, fun _ _ => rfl⟩

/-! ## One call -/

/-- What interference leaves as it is. -/
def Lasting (i : ι) (Q : ClaimWorld ι → Prop) : Prop :=
  ∀ w w', Later w w' → w'.seen i = w.seen i → Q w → Q w'

omit [DecidableEq ι] in
theorem lasting_granted (i : ι) (claim : Json) : Lasting i fun w => claim ∈ w.granted := by
  intro w w' hl _ hm
  exact hl.granted.subset hm

omit [DecidableEq ι] in
theorem lasting_decided (i : ι) (data : Json) (current : Instant) :
    Lasting i (Decided i data current) := by
  intro w w' hl hs hw
  exact ⟨hw.1.later hl hs, hw.2.trans hl.clock⟩

/-- A program that spares the claims file keeps every lasting fact. -/
theorem safe_spares {α : Type} {i : ι} {Q : ClaimWorld ι → Prop} (hQ : Lasting i Q)
    {p : HostProg α} (hp : p.Calls (claimDiscipline.Quiet i)) {s : ClaimWorld ι × Unit}
    (hs : Q s.1) : claimDiscipline.Safe i (fun _ s => Q s.1) p s := by
  apply Discipline.Safe.quiet _ hp hs
  intro s s' hr h
  exact hQ _ _ hr.1 (hr.2 i rfl) h

/-- One more step that spares the claims file. -/
theorem safe_then {α β : Type} {i : ι} {Q : ClaimWorld ι → Prop} (hQ : Lasting i Q)
    {R : β → ClaimWorld ι × Unit → Prop} {p : HostProg α} {f : α → HostProg β}
    (hp : p.Calls (claimDiscipline.Quiet i)) {s : ClaimWorld ι × Unit} (hi : claimDiscipline.inv s)
    (hs : Q s.1)
    (hf : ∀ a s, claimDiscipline.inv s → Q s.1 → claimDiscipline.Safe i (OnOk R) (f a) s) :
    claimDiscipline.Safe i (OnOk R) (p.handle f .raise) s :=
  (safe_spares hQ hp hs).handle hi hf fun _ _ _ _ => .raise

theorem calls_ask (i : ι) {o : HostOp} (h : o.sparesClaims = true) :
    (ask o).Calls (claimDiscipline.Quiet i) := .perform (quiet_spares i h)

/-- Reading under the lock gives the claims as they are. -/
theorem safe_readClaims (i : ι) (s : ClaimWorld ι × Unit) (hi : claimDiscipline.inv s) :
    claimDiscipline.Safe i (OnOk fun data s => HasRead i data s.1)
      (readJson .workClaims noClaims) s := by
  have hask : claimDiscipline.Safe i
      (OnOk fun r s => ∀ v, r = .ok v → HasRead i (v.getD noClaims) s.1)
      (ask (.readJson .workClaims)) s := by
    apply Discipline.Safe.perform
    · intro r s s' hr h _ hr' v hv
      exact (h _ hr' v hv).later hr.1 (hr.2 i rfl)
    · intro s' _ hi'
      refine ⟨trivial, fun r ha => ?_⟩
      cases r with
      | error e =>
        exact ⟨(), hi', fun _ _ => ⟨.refl _, fun _ _ => rfl⟩,
          fun _ hr v hv => absurd (Except.ok.inj hr ▸ hv) (by simp)⟩
      | ok v =>
        refine ⟨(), ⟨⟨hi'.1.single, hi'.1.kept⟩, hi'.2⟩, fun j hj =>
          ⟨⟨le_refl _, List.prefix_refl _⟩, ?_⟩, ?_⟩
        · intro k hk
          have hne : k ≠ i := fun h => hj (by rw [hk, h])
          exact Function.update_of_ne hne _ _
        · intro _ hr v' hv'
          obtain rfl := Except.ok.inj hr
          obtain rfl := Except.ok.inj hv'
          -- the answer is the file, for the default stands for a file without claims
          have hfile : s'.1.claims = claimsOf (v.getD noClaims) := by
            rcases ha.1 with ha | ha
            · unfold ClaimWorld.claims
              cases hf : s'.1.file with
              | none =>
                rw [hf] at ha
                obtain rfl := Except.ok.inj ha
                decide
              | some x =>
                rw [hf] at ha
                cases x with
                | error e => exact absurd ha (by simp [fileAnswer])
                | ok data =>
                  obtain rfl := Except.ok.inj ha
                  rfl
            · exact absurd ha (by simp)
          have hseen : Function.update s'.1.seen i s'.1.granted.length i = s'.1.granted.length :=
            Function.update_self ..
          constructor
          · show Function.update s'.1.seen i s'.1.granted.length i ≤ _
            rw [hseen]
            exact le_refl _
          · intro claim hm hact
            rw [← hfile]
            exact hi'.1.kept claim (List.mem_of_mem_take hm) hact
          · intro claim hm hact
            show claim ∈ s'.1.granted.take (Function.update s'.1.seen i s'.1.granted.length i)
            rw [hseen, List.take_length]
            rw [← hfile] at hm
            exact hi'.2 claim hm hact
  apply Discipline.Safe.bind _ hi
  · intro v s' _ h
    exact .ret (fun s'' hr h => h.later hr.1 (hr.2 i rfl)) h
  · apply hask.bind hi
    intro r s' _ h
    cases r with
    | error e => exact .raise
    | ok v => exact .ret (fun s'' hr h => h.later hr.1 (hr.2 i rfl)) (h v rfl)

/-- The clock decides which of the claims that were read are active. -/
theorem safe_now {i : ι} {data : Json} {s : ClaimWorld ι × Unit} (hs : HasRead i data s.1) :
    claimDiscipline.Safe i (OnOk fun current s => Decided i data current s.1) (ask .now) s := by
  apply Discipline.Safe.perform
  · intro r s s' hr h _ hr'
    exact lasting_decided i data _ _ _ hr.1 (hr.2 i rfl) (h _ hr')
  · intro s' hr hi'
    refine ⟨trivial, fun r ha => ⟨(), hi', fun _ _ => ⟨.refl _, fun _ _ => rfl⟩, ?_⟩⟩
    intro current hc
    obtain rfl := Except.ok.inj hc
    obtain rfl : r = s'.1.clock := ha.1
    exact ⟨hs.later hr.1 (hr.2 i rfl), le_refl _⟩

/-- What a replacement grants is the claim that was decided. -/
theorem next_replace (i : ι) (u : Unit) {req : ClaimRequest} {data claim content : Json}
    {current : Instant}
    (hg : grantClaim req current data = .ok (claim, content)) (w : ClaimWorld ι) :
    claimSem.next i w (.replace .workClaims content) (.ok u) = w.grant content claim := by
  obtain ⟨-, active, hcontent, -⟩ := grantClaim_ok hg
  have hlast : (claimsOf content).getLast?.toList = [claim] := by
    rw [hcontent, List.getLast?_append]
    rfl
  simp only [claimSem, hlast]
  rfl

/-- Replacing the claims by what was granted keeps the claims exclusive, since they are still those
that were decided on. -/
theorem safe_replace {i : ι} {req : ClaimRequest} {data claim content : Json} {current : Instant}
    (hg : grantClaim req current data = .ok (claim, content)) {s : ClaimWorld ι × Unit}
    (hi : claimDiscipline.inv s) (hs : Decided i data current s.1) :
    claimDiscipline.Safe i (OnOk fun _ s => claim ∈ s.1.granted)
      (sys (ask (.replace .workClaims content))) s := by
  have hask : claimDiscipline.Safe i (OnOk fun r s => r = .ok () → claim ∈ s.1.granted)
      (ask (.replace .workClaims content)) s := by
    apply Discipline.Safe.perform
    · intro r s s' hr h _ hr' hok
      exact hr.1.granted.subset (h _ hr' hok)
    · intro s' hr hi'
      have hs' := lasting_decided i data current _ _ hr.1 (hr.2 i rfl) hs
      refine ⟨⟨req, data, current, claim, hg, hs'⟩, fun r ha => ?_⟩
      cases r with
      | error e =>
        exact ⟨(), hi', fun _ _ => ⟨.refl _, fun _ _ => rfl⟩,
          fun _ hr h => absurd (Except.ok.inj hr ▸ h) (by simp)⟩
      | ok u =>
        have hnext : (claimSem.restrict Undisturbed).next i s'.1
          (.replace .workClaims content) (.ok u)
            = s'.1.grant content claim := next_replace i u hg s'.1
        rw [hnext]
        refine ⟨(), ⟨hi'.1.replace hs' hg ha.2, .replace hs' hg⟩, fun j hj => ?_, ?_⟩
        · exact ⟨⟨le_refl _, List.prefix_append _ _⟩, fun _ _ => rfl⟩
        · intro _ _ _
          exact List.mem_append_right _ (List.mem_singleton.mpr rfl)
  apply hask.bind hi
  intro r s' _ h
  cases r with
  | error e => exact .raise
  | ok u => exact .ret (fun s'' hr h => hr.1.granted.subset h) (h rfl)

/-- The same for the whole write, which first makes a file beside the claims. -/
theorem safe_writeClaims {i : ι} {req : ClaimRequest} {data claim content : Json}
    {current : Instant} (hg : grantClaim req current data = .ok (claim, content))
    {s : ClaimWorld ι × Unit} (hi : claimDiscipline.inv s) (hs : Decided i data current s.1) :
    claimDiscipline.Safe i (OnOk fun _ s => claim ∈ s.1.granted)
    (writeJson .workClaims content) s := by
  have hlast := lasting_decided i data current
  have hwrite : (writeTemporary .workClaims content).Calls (claimDiscipline.Quiet i) :=
    .ite (calls_sys (calls_ask i rfl)) trivial
  have hunlink : (unlinkTemporary .workClaims).Calls (claimDiscipline.Quiet i) :=
    (calls_sys (calls_ask i rfl)).handle (fun _ => trivial) fun _ => .ite trivial trivial
  apply safe_then hlast (calls_sys (calls_ask i rfl)) hi hs
  intro _ s hi hs
  apply safe_then hlast (calls_sys (calls_ask i rfl)) hi hs
  intro _ s hi hs
  have hbody : claimDiscipline.Safe i (OnOk fun _ s => claim ∈ s.1.granted)
      (do
        writeTemporary .workClaims content
        sys (ask (.syncTemporary .workClaims))
        sys (ask (.replace .workClaims content))) s := by
    apply safe_then hlast hwrite hi hs
    intro _ s hi hs
    apply safe_then hlast (calls_sys (calls_ask i rfl)) hi hs
    intro _ s hi hs
    exact safe_replace hg hi hs
  apply hbody.handle hi
  · intro _ s hi h
    apply safe_then (lasting_granted i claim) hunlink hi (h () rfl)
    intro _ s _ h
    exact .ret (fun s' hr h => hr.1.granted.subset h) h
  · intro e s hi _
    apply safe_then (fun _ _ _ _ _ => trivial) hunlink hi trivial
    intro _ s _ _
    exact .raise

/-- A call that returns a claim has granted it. -/
theorem safe_claimWork (i : ι) (req : ClaimRequest) (s : ClaimWorld ι × Unit)
    (hi : claimDiscipline.inv s) :
    claimDiscipline.Safe i (OnOk fun claim s => claim ∈ s.1.granted) (claimWork req) s := by
  unfold claimWork
  split
  · exact .raise
  · apply (safe_readClaims i s hi).bind hi
    intro data s hi hread
    apply (safe_now hread).bind hi
    intro current s hi hdec
    cases hg : grantClaim req current data with
    | error e => exact .raise
    | ok g =>
      obtain ⟨claim, content⟩ := g
      apply (safe_writeClaims hg hi hdec).bind hi
      intro _ s hi hm
      have hemit : (emitEvent (lit "work_claimed") (lit "L0") claim).Calls
          (claimDiscipline.Quiet i) := by
        unfold emitEvent
        split
        · trivial
        apply (calls_sys (calls_ask i rfl)).bind
        intro _
        apply (calls_ask i rfl).bind
        intro at'
        exact .ite (calls_sys (calls_ask i rfl)) trivial
      apply safe_then (lasting_granted i claim) hemit hi hm
      intro _ s _ hm
      exact .ret (fun s' hr h => hr.1.granted.subset h) hm

/-! ## Runs -/

/-- The world is exclusive and a returned claim is a granted one. -/
structure ClaimsExclusive (c : Conf ι (ClaimWorld ι) hostSig Exn Json) : Prop where
  exclusive : Exclusive c.world
  returned : ∀ i claim, c.threads i = some (.ret claim) → claim ∈ c.world.granted

section Runs

variable {jobs : ι → Option ClaimRequest} {w : ClaimWorld ι}
  {c c' : Conf ι (ClaimWorld ι) hostSig Exn Json}

theorem safe_start (h0 : Exclusive w) (hgen : Genuine w) :
    claimDiscipline.AllSafe (fun _ => OnOk fun claim s => claim ∈ s.1.granted)
      (startClaims w jobs).threads (w, ()) := by
  intro i p hp
  obtain ⟨req, -, rfl⟩ := Option.map_eq_some_iff.mp hp
  exact safe_claimWork i req _ ⟨h0, hgen⟩

/-- Undisturbed steps keep the exclusion. -/
theorem claimsExclusive_of_undisturbed (h0 : Exclusive w) (hgen : Genuine w)
    (h : (claimSem.restrict Undisturbed).Reach (startClaims w jobs) c) : ClaimsExclusive c := by
  obtain ⟨⟨⟩, hi, hs, -⟩ := Discipline.run (D := claimDiscipline) h ⟨h0, hgen⟩ (safe_start h0 hgen)
  exact ⟨hi.1, fun i claim hc => hs.ended hi hc claim rfl⟩

/-- The next step keeps the exclusion just when it is undisturbed. -/
theorem step_exclusive_iff (h0 : Exclusive w) (hgen : Genuine w)
    (h : (claimSem.restrict Undisturbed).Reach (startClaims w jobs) c)
    (hstep : claimSem.Step c c') :
    Exclusive c'.world ↔ (claimSem.restrict Undisturbed).Step c c' := by
  constructor
  · intro hex
    obtain ⟨⟨⟩, hi, hs, -⟩ := Discipline.run (D := claimDiscipline) h ⟨h0, hgen⟩
      (safe_start h0 hgen)
    cases hstep with
    | kill i => exact .kill i
    | env he => exact .env he
    | @act i o k r hp ha =>
      refine .act r hp ⟨ha, ?_⟩
      have hpre := hs.pre hi hp
      unfold Undisturbed
      split
      · next content u =>
        intro claim hm hact
        obtain ⟨req, data, current, new, hg, hd⟩ := hpre
        -- the replacement would have ended the exclusion
        refine disturbed_not_exclusive hi.1 hd hg hm hact ?_
        rw [← next_replace i u hg c.world]
        exact hex
      · trivial
  · intro hund
    exact (claimsExclusive_of_undisturbed h0 hgen (h.tail hund)).exclusive

/-- **Exclusion of work claims.** In every run of any number of calls, with
claims granted before it and time passing, every state is exclusive and every
returned claim granted if and only if no replacement of the file is disturbed. -/
theorem claims_exclusive_iff (h0 : Exclusive w) (hgen : Genuine w)
    {run : List (Conf ι (ClaimWorld ι) hostSig Exn Json)}
    (h : List.IsChain claimSem.Step (startClaims w jobs :: run)) :
    (∀ c ∈ run, ClaimsExclusive c)
      ↔ List.IsChain (claimSem.restrict Undisturbed).Step (startClaims w jobs :: run) := by
  -- along the run, from any state that undisturbed steps have reached
  have key : ∀ (run : List (Conf ι (ClaimWorld ι) hostSig Exn Json)) c,
      (claimSem.restrict Undisturbed).Reach (startClaims w jobs) c →
      List.IsChain claimSem.Step (c :: run) →
      ((∀ c' ∈ run, ClaimsExclusive c')
        ↔ List.IsChain (claimSem.restrict Undisturbed).Step (c :: run)) := by
    intro run
    induction run with
    | nil =>
      intro c _ _
      simp
    | cons c' run ih =>
      intro c hreach hchain
      rw [List.isChain_cons_cons] at hchain ⊢
      have hstep := step_exclusive_iff h0 hgen hreach hchain.1
      constructor
      · intro hall
        have hu := hstep.mp (hall c' (List.mem_cons_self ..)).exclusive
        refine ⟨hu, (ih c' (hreach.tail hu) hchain.2).mp ?_⟩
        intro c'' hm
        exact hall c'' (List.mem_cons_of_mem _ hm)
      · rintro ⟨hu, hrest⟩ c'' hm
        rcases List.mem_cons.mp hm with rfl | hm
        · exact claimsExclusive_of_undisturbed h0 hgen (hreach.tail hu)
        · exact (ih c' (hreach.tail hu) hchain.2).mpr hrest c'' hm
  exact key run _ .refl h

end Runs

/-! ## Runs that can be played -/

instance (w : ClaimWorld ι) (i : ι) (o : HostOp) (r : hostSig.Resp o) :
    Decidable (claimSem.allows i w o r) := by
  unfold claimSem
  dsimp only
  split <;> infer_instance

/-- Nothing fails. -/
def calmAnswer (w : ClaimWorld ι) : (o : HostOp) → hostSig.Resp o :=
  CalmHost.answer
    { now := w.clock
      files := fun file => if file = .workClaims then fileAnswer w.file else .ok none
      documents := fun _ => []
      reply := [] }

/-- `n` calls of one `claim_work`. -/
def calmMoves (i : ι) (n : Nat) : List (Move ι (ClaimWorld ι) hostSig) :=
  List.replicate n (.act i calmAnswer)

/-- No file yet. -/
def freshClaims : ClaimWorld ι := ⟨none, ⟨63000000000000000, sampleMicros_lt⟩, [], fun _ => 0⟩

omit [DecidableEq ι] in
theorem exclusive_fresh : Exclusive (freshClaims : ClaimWorld ι) :=
  ⟨List.Pairwise.nil, fun _ h => absurd h (by simp [freshClaims])⟩

omit [DecidableEq ι] in
theorem genuine_fresh : Genuine (freshClaims : ClaimWorld ι) :=
  fun _ h => absurd h (by simp [freshClaims, ClaimWorld.claims])

/-- Two agents ask for these packages. -/
def twoClaims (first second : PyStr) (i : Bool) : Option ClaimRequest :=
  some ⟨if i then second else first, if i then lit "agent-b" else lit "agent-a", 60⟩

/-- Two calls one after the other, for two packages: the run is exclusive. -/
theorem claims_exclusive_sequential :
    ∃ run : List (Conf Bool (ClaimWorld Bool) hostSig Exn Json), run.length = 22
      ∧ ((∀ c ∈ run, ClaimsExclusive c) ↔ List.IsChain (claimSem.restrict Undisturbed).Step
        (startClaims freshClaims (twoClaims (lit "wp-1") (lit "wp-2")) :: run)) := by
  have hplay : ((claimSem.states (calmMoves false 11 ++ calmMoves true 11)
      (startClaims freshClaims (twoClaims (lit "wp-1") (lit "wp-2")))).map List.length)
      = some 22 := by decide +kernel
  obtain ⟨run, hrun, hlen⟩ := Option.map_eq_some_iff.mp hplay
  exact ⟨run, hlen, claims_exclusive_iff exclusive_fresh genuine_fresh (Sem.states_chain hrun)⟩

/-- Two calls for one package that both read before either replaces the file:
both record a claim, and one of the two is lost from the file. -/
theorem overlapping_claims :
    ¬∀ (jobs : Bool → Option ClaimRequest) (c : Conf Bool (ClaimWorld Bool) hostSig Exn Json),
      claimSem.Reach (startClaims freshClaims jobs) c → ClaimsExclusive c := by
  intro h
  have hplay : ((claimSem.play
      (calmMoves false 2 ++ calmMoves true 2 ++ calmMoves false 9 ++ calmMoves true 9)
      (startClaims freshClaims (twoClaims (lit "wp-1") (lit "wp-1")))).map fun c =>
        decide (c.world.granted.length = 2
          ∧ (∀ claim ∈ c.world.granted, Active c.world.clock claim)
          ∧ ∃ claim ∈ c.world.granted, claim ∉ c.world.claims))
      = some true := by decide +kernel
  obtain ⟨c, hc, hprops⟩ := Option.map_eq_some_iff.mp hplay
  obtain ⟨-, hactive, claim, hm, hlost⟩ := of_decide_eq_true hprops
  exact hlost ((h _ c (Sem.play_reach hc)).exclusive.kept claim hm (hactive claim hm))

end SddGov.Governance
