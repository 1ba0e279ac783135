import SddGov.FsSecurity.Directory

/-!
# Removing an owned generation

`remove_owned_at` moves an entry to a private name, looks at what it got, and
removes it or moves it back.
-/

namespace SddGov.FsSecurity

open SddGov.Effect SddGov.Python

/-- A name that is not empty and has no `/`. -/
def isComponent (name : Name) : Bool := !name.isEmpty && !name.contains (cp 0x2F)

/-- `exclusive_rename_at` within one directory; a refusal is an answer. -/
def exclusiveRenameAt (source destination : Name) : DirProg (Sys Unit) :=
  if isComponent source && isComponent destination then ask (.renameExclusive source destination)
  else .raise ⟨valueError "exclusive rename requires single path components", none⟩

/-- What is expected of the generation: device and inode, and size and digest where given. -/
structure Expectation where
  identity : Nat × Nat
  size : Option Nat
  digest : Option PyStr

section Program

variable (C : Crypto) (name : Name) (expected : Expectation) (label : PyStr)

def couldNotReserve : PyStr := label ++ lit " cleanup could not reserve a private generation"

/-- The attempts to move the entry to a private name; `none` when there is no such entry. -/
def reserve : Nat → DirProg (Option Name)
  | 0 => .raise ⟨.value (couldNotReserve label), none⟩
  | attempts + 1 => do
    let token : PyStr ← ask .tokenHex
    let candidate := lit ".sddgov.cleanup-pending-" ++ token
    match ← exclusiveRenameAt name candidate with
    | .ok _ => .ret (some candidate)
    | .error .missing => .ret none
    | .error .exists => reserve attempts
    | .error .other => .raise ⟨.value (couldNotReserve label), some (.os .other)⟩

def preserved (pending : Name) : PyStr := lit "; preserved pending generation " ++ pending

/-- Raise `error`, or the primary exception from it. -/
def raiseFor (primary : Option Raised) (error : Exn) (cause : OsError) : Raised :=
  match primary with
  | some p => ⟨p.error, some error⟩
  | none => ⟨error, some (.os cause)⟩

/-- `restore_claim` -/
def restoreClaim (pending : Name) (primary : Option Raised) : DirProg Unit := do
  match ← exclusiveRenameAt pending name with
  | .ok _ => .ret ()
  | .error .missing => .ret ()
  | .error .exists =>
    .raise (raiseFor primary (.value (label ++ lit " changed during cleanup" ++ preserved pending))
      .exists)
  | .error .other =>
    .raise (raiseFor primary
      (.value (label ++ lit " cleanup could not restore the original name" ++ preserved pending))
        .other)

/-- The entry is moved back before the exception goes on. -/
def restoreAndRaise (pending : Name) {α : Type} (primary : Raised) : DirProg α :=
  (restoreClaim name label pending (some primary)).handle (fun _ => .raise primary) .raise

/-- The open file is read and compared with what is expected. -/
def readGeneration : DirProg Bool := do
  let opened ← sysAt (ask .fstat)
  let data ← sysAt (ask (.readAll expected.size))
  let final ← sysAt (ask .fstat)
  .ret (opened.regular && opened.identity == expected.identity
    && opened.generation == final.generation
    && expected.size.all (· == data.length) && expected.digest.all (· == C.sha256 data))

/-- The comparison of size and digest, with the descriptor closed on every way out. -/
def inspectContent (pending : Name) : DirProg Bool :=
  (sysAt (ask (.openFile pending))).handle
    (fun _ =>
      (readGeneration C expected).handle
        (fun owned => (sysAt (ask .closeFile)).handle (fun _ => .ret owned)
          (restoreAndRaise name label pending))
        fun primary =>
          (sysAt (ask .closeFile)).handle (fun _ => restoreAndRaise name label pending primary)
            fun cleanup =>
            (restoreClaim name label pending (some primary)).handle
              (fun _ => .raise ⟨primary.error, some cleanup.error⟩) .raise)
    (restoreAndRaise name label pending)

/-- The owned entry is unlinked; a failure counts only while the entry is there. -/
def unlinkClaim (pending : Name) : DirProg Unit := do
  match ← ask (.unlink pending) with
  | .ok _ => .ret ()
  | .error .missing => .ret ()
  | .error e =>
    match ← ask (.stat pending) with
    | .error .missing => .ret ()
    | .error e' => .raise ⟨.os e', none⟩
    | .ok _ => .raise ⟨.os e, none⟩

/-- Whether the entry under its private name is the owned one. -/
def generationOwned (pending : Name) (metadata : FileStat) : DirProg Bool :=
  let identical := metadata.regular && metadata.identity == expected.identity
  if identical && (expected.size.isSome || expected.digest.isSome) then
    inspectContent C name expected label pending
  else .ret identical

/-- An owned entry is removed, another one moved back. -/
def finishClaim (pending : Name) (owned : Bool) : DirProg Bool :=
  if owned then do
    unlinkClaim pending
    sysAt (ask .fsync)
    .ret true
  else do
    restoreClaim name label pending none
    sysAt (ask .fsync)
    .ret false

/-- What becomes of the entry under its private name. -/
def settleClaim (pending : Name) : DirProg Bool := do
  match ← ask (.stat pending) with
  | .error .missing => .ret false
  | .error e => restoreAndRaise name label pending ⟨.os e, none⟩
  | .ok metadata => do
    let owned ← generationOwned C name expected label pending metadata
    finishClaim name label pending owned

/-- `remove_owned_at` -/
def removeOwnedAt : DirProg Bool := do
  match ← reserve name label 16 with
  | none => .ret false
  | some pending => settleClaim C name expected label pending

end Program

/-! ## What is held, and where it ends -/

/-- The generation is the one that may be removed. -/
structure Owned (C : Crypto) (expected : Expectation) (g : Node) : Prop where
  regular : g.regular = true
  identity : g.identity = expected.identity
  size : ∀ n ∈ expected.size, g.content.length = n
  digest : ∀ d ∈ expected.digest, C.sha256 g.content = d

/-- Nothing but owned generations has been deleted. -/
def OnlyOwned (C : Crypto) (expected : Expectation) (w : Directory) : Prop :=
  ∀ n g, .unlinked n g ∈ w.log → Owned C expected g

/-- The program has touched no entry yet. -/
structure Untouched (w : Directory) : Prop where
  held : w.held = none
  moved : ∀ a b g, .moved a b g ∉ w.log

/-- Generation `g` has been moved from `name` to `pending` and is still there. -/
structure Holding (name pending : Name) (g : Node) (w : Directory) : Prop where
  held : w.held = some (pending, g)
  entry : w.entries pending = some g
  claimed : .moved name pending g ∈ w.log
  only : ∀ a b h, .moved a b h ∈ w.log → h = g ∧ a = name ∧ b = pending

/-- Generation `g` has been moved back to `name`. -/
structure Released (name pending : Name) (g : Node) (w : Directory) : Prop where
  back : .moved pending name g ∈ w.log
  only : ∀ b h, .moved name b h ∈ w.log → .moved b name h ∈ w.log

/-- Generation `g` has been deleted. -/
structure Deleted (name pending : Name) (g : Node) (w : Directory) : Prop where
  claimed : .moved name pending g ∈ w.log
  unlinked : .unlinked pending g ∈ w.log
  only : ∀ b h, .moved name b h ∈ w.log → h = g

/-- The exception or its cause names the pending generation. -/
def Raised.Names (r : Raised) (pending : Name) : Prop :=
  ∃ text, r.error = .value (text ++ preserved pending)
    ∨ r.cause = some (.value (text ++ preserved pending))

/-- The rename back was refused since `name` was taken, or failed. -/
def Refused (name pending : Name) (w : Directory) : Prop :=
  ∃ e taken, .refused pending name e taken ∈ w.log ∧ (e = .exists ∧ taken = true ∨ e = .other)

/-- How a claim can end with an exception. -/
def GivenUp (name pending : Name) (g : Node) (r : Raised) (w : Directory) : Prop :=
  Released name pending g w ∨ (Holding name pending g w ∧ Refused name pending w ∧ r.Names pending)

theorem Holding.stable {name pending : Name} {g : Node} :
    directorySolo.Stable (Holding name pending g) :=
  fun _ _ h hw => ⟨h.held.trans hw.held, (h.entries _ _ hw.held).trans hw.entry,
    h.log.symm ▸ hw.claimed,
    h.log.symm ▸ hw.only⟩

theorem Released.stable {name pending : Name} {g : Node} :
    directorySolo.Stable (Released name pending g) :=
  fun _ _ h hw => ⟨h.log.symm ▸ hw.back, h.log.symm ▸ hw.only⟩

theorem Deleted.stable {name pending : Name} {g : Node} :
    directorySolo.Stable (Deleted name pending g) :=
  fun _ _ h hw => ⟨h.log.symm ▸ hw.claimed, h.log.symm ▸ hw.unlinked, h.log.symm ▸ hw.only⟩

theorem Untouched.stable : directorySolo.Stable Untouched :=
  fun _ _ h hw => ⟨h.held.trans hw.held, h.log.symm ▸ hw.moved⟩

theorem Refused.stable {name pending : Name} : directorySolo.Stable (Refused name pending) :=
  fun _ _ h hw => by
    unfold Refused at hw ⊢
    rw [h.log]
    exact hw

theorem GivenUp.stable {name pending : Name} {g : Node} {r : Raised} :
    directorySolo.Stable (GivenUp name pending g r) := by
  rintro w w' h (hw | ⟨hw, hrefused, hnames⟩)
  · exact .inl (Released.stable w w' h hw)
  · exact .inr ⟨Holding.stable w w' h hw, Refused.stable w w' h hrefused, hnames⟩

theorem OnlyOwned.stable {C : Crypto} {expected : Expectation} :
    directorySolo.Stable (OnlyOwned C expected) :=
  fun _ _ h hw => by
    unfold OnlyOwned at hw ⊢
    rw [h.log]
    exact hw

/-- The calls that touch no entry. -/
def Looks : DirOp → Prop
  | .renameExclusive _ _ => False
  | .unlink _ => False
  | _ => True

theorem fail_same (w : Directory) (e : OsError) :
    (w.fail e).entries = w.entries ∧ (w.fail e).held = w.held ∧ (w.fail e).log = w.log
      ∧ (w.fail e).opened = w.opened := by
  unfold Directory.fail
  split <;> exact ⟨rfl, rfl, rfl, rfl⟩

theorem next_looks {w : Directory} {o : DirOp} (h : Looks o) (r : dirSig.Resp o) :
    (w.next o r).entries = w.entries ∧ (w.next o r).held = w.held ∧ (w.next o r).log = w.log := by
  cases o with
  | renameExclusive _ _ => exact h.elim
  | unlink _ => exact h.elim
  | tokenHex => exact ⟨rfl, rfl, rfl⟩
  | stat n | openFile n | fstat | readAll _ | closeFile | fsync =>
    cases r with
    | ok _ => exact ⟨rfl, rfl, rfl⟩
    | error e => exact ⟨(fail_same w e).1, (fail_same w e).2.1, (fail_same w e).2.2.1⟩

theorem Holding.looks {name pending : Name} {g : Node} {w : Directory}
    (h : Holding name pending g w) {o : DirOp}
    (ho : Looks o) (r : dirSig.Resp o) : Holding name pending g (w.next o r) := by
  obtain ⟨hentries, hheld, hlog⟩ := next_looks (w := w) ho r
  exact ⟨hheld.trans h.held, by
    rw [hentries]; exact h.entry, hlog.symm ▸ h.claimed, hlog.symm ▸ h.only⟩

theorem OnlyOwned.looks {C : Crypto} {expected : Expectation} {w : Directory}
    (h : OnlyOwned C expected w) {o : DirOp}
    (ho : Looks o) (r : dirSig.Resp o) : OnlyOwned C expected (w.next o r) := by
  unfold OnlyOwned
  rw [(next_looks ho r).2.2]
  exact h

/-! ## The steps -/

section Steps

variable {C : Crypto} {name pending : Name} {expected : Expectation} {label : PyStr} {g : Node}

/-- A triple that deletes owned generations only. -/
abbrev Claims (C : Crypto) (expected : Expectation) {α : Type} (P : Directory → Prop)
    (p : DirProg α)
    (Q : Outcome Raised α → Directory → Prop) : Prop :=
  Hoare directorySolo (OnlyOwned.stable : directorySolo.Stable (OnlyOwned C expected)) P p Q

/-- A call that touches no entry, and what is known of its answer. -/
theorem claims_look {o : DirOp} {P : Directory → Prop} {Q : dirSig.Resp o → Directory → Prop}
    (ho : Looks o)
    (hP : directorySolo.Stable P) (hQ : ∀ r, directorySolo.Stable (Q r))
    (h : ∀ w r, P w → w.allows o r → Q r (w.next o r)) :
    Claims C expected P (ask o) fun x w => ∃ r, x = .ok r ∧ Q r w := by
  apply Hoare.perform hP
  · rintro r w w' henv ⟨r', hr', hw⟩
    exact ⟨r', hr', hQ r' w w' henv hw⟩
  · intro w r hinv hw hr
    exact ⟨hinv.looks ho r, r, rfl, h w r hw hr⟩

/-- The rule for going on with the answer of a call. -/
theorem claims_bind {α β : Type} {P : Directory → Prop} {p : DirProg α} {R : α → Directory → Prop}
    {k : α → DirProg β} {Q : Outcome Raised β → Directory → Prop}
    (h : Claims C expected P p fun x w => ∃ r, x = .ok r ∧ R r w)
    (hk : ∀ r, Claims C expected (R r) (k r) Q)
    (onError : Raised → DirProg β) : Claims C expected P (p.handle k onError) Q := by
  apply h.handle
  · rintro r w hinv ⟨r', hr', hw⟩
    obtain rfl := Except.ok.inj hr'
    exact hk r w hinv hw
  · rintro e w - ⟨r, hr, -⟩
    exact absurd hr (by simp)

/-- An answer that is an error is raised. -/
theorem claims_sysAt {α : Type} {P : Directory → Prop} {p : DirProg (Sys α)}
    {R : Sys α → Directory → Prop}
    {Q : Outcome Raised α → Directory → Prop} (h : Claims C expected P p fun x w =>
      ∃ r, x = .ok r ∧ R r w)
    (hR : ∀ r, directorySolo.Stable (R r)) (hok : ∀ a w, R (.ok a) w → Q (.ok a) w)
    (herror : ∀ e w, R (.error e) w → Q (.error ⟨.os e, none⟩) w) :
    Claims C expected P (sysAt p) Q := by
  apply claims_bind h
  intro r
  cases r with
  | ok a => exact Hoare.ret (hR _) (hok a)
  | error e => exact Hoare.raise (hR _) (herror e)

/-- A look while an entry is held; every way out keeps it. -/
theorem claims_look_holding {o : DirOp} (ho : Looks o) :
    Claims C expected (Holding name pending g) (ask o) fun x w => ∃ r, x = .ok r
    ∧ Holding name pending g w :=
  claims_look ho Holding.stable (fun _ => Holding.stable) fun _ r hw _ => hw.looks ho r

theorem exclusiveRenameAt_eq {source destination : Name} (hs : isComponent source = true)
    (hd : isComponent destination = true) :
    exclusiveRenameAt source destination = ask (.renameExclusive source destination) := by
  have hboth : (isComponent source && isComponent destination) = true := by rw [hs, hd]; rfl
  exact if_pos hboth

/-- The rename back of a held entry. -/
theorem claims_renameBack (hname : isComponent name = true)
    (hpending : isComponent pending = true) :
    Claims C expected (Holding name pending g) (exclusiveRenameAt pending name) fun x w =>
      ∃ r, x = .ok r ∧ ((r = .ok () ∧ Released name pending g w)
        ∨ ∃ e, r = .error e ∧ e ≠ .missing ∧ Holding name pending g w
          ∧ Refused name pending w) := by
  rw [exclusiveRenameAt_eq hpending hname]
  apply Hoare.perform Holding.stable
  · rintro r w w' henv ⟨r', hr', ⟨hok, hw⟩ | ⟨e, he, hne, hw, hrefused⟩⟩
    · exact ⟨r', hr', .inl ⟨hok, Released.stable w w' henv hw⟩⟩
    · exact ⟨r', hr', .inr ⟨e, he, hne, Holding.stable w w' henv hw,
        Refused.stable w w' henv hrefused⟩⟩
  · intro w r hinv hw hr
    cases r with
    | ok u =>
      have hnext : directorySolo.next w (.renameExclusive pending name) (.ok u)
        = w.move pending name g :=
        Directory.next_renameExclusive u hw.entry
      rw [hnext]
      refine ⟨?_, _, rfl, .inl ⟨rfl, ?_, ?_⟩⟩
      · intro n h hmem
        rcases List.mem_append.mp hmem with hmem | hmem
        · exact hinv n h hmem
        · exact absurd (List.mem_singleton.mp hmem) (by simp)
      · exact List.mem_append_right _ (List.mem_singleton_self _)
      · intro b h hmem
        rcases List.mem_append.mp hmem with hmem | hmem
        · obtain ⟨rfl, -, rfl⟩ := hw.only _ _ _ hmem
          exact List.mem_append_right _ (List.mem_singleton_self _)
        · -- only with `name = pending`, and then it is the same move
          obtain ⟨rfl, rfl, rfl⟩ := DirEffect.moved.inj (List.mem_singleton.mp hmem)
          exact List.mem_append_right _ (List.mem_singleton_self _)
    | error e =>
      have hne : e ≠ .missing := by
        rintro rfl
        exact absurd (hr.symm.trans hw.entry) (by simp)
      have hsame := fail_same w e
      have hlog : ∀ {d : DirEffect}, d ∈ w.log → d ∈ w.log
        ++ [.refused pending name e (w.entries name).isSome] :=
        fun hd => List.mem_append_left _ hd
      have hold : ∀ {d : DirEffect}, d ∈ w.log
        ++ [.refused pending name e (w.entries name).isSome] →
          (∀ s t e b, d ≠ .refused s t e b) → d ∈ w.log := by
        intro d hd hd'
        rcases List.mem_append.mp hd with hd | hd
        · exact hd
        · exact absurd (List.mem_singleton.mp hd) (hd' _ _ _ _)
      refine ⟨?_, _, rfl, .inr ⟨e, rfl, hne, ⟨?_, ?_, ?_, ?_⟩, ?_⟩⟩
      · exact fun n h hmem => hinv n h (hold hmem (by simp))
      · exact hsame.2.1.trans hw.held
      · exact (congrFun hsame.1 pending).trans hw.entry
      · exact hlog hw.claimed
      · exact fun a b h hmem => hw.only a b h (hold hmem (by simp))
      · refine ⟨e, (w.entries name).isSome, List.mem_append_right _ (List.mem_singleton_self _), ?_⟩
        cases e with
        | missing => exact absurd rfl hne
        | other => exact .inr rfl
        | «exists» =>
          have htaken : w.entries name ≠ none := hr
          exact .inl ⟨rfl, Option.isSome_iff_ne_none.mpr htaken⟩

theorem names_raiseFor (primary : Option Raised) (text : PyStr) (cause : OsError) :
    (raiseFor primary (.value (text ++ preserved pending)) cause).Names pending := by
  refine ⟨text, ?_⟩
  cases primary with
  | none => exact .inl rfl
  | some p => exact .inr rfl

/-- Restoring ends with the entry back under its name, or with an error and the entry still held. -/
theorem claims_restoreClaim (hname : isComponent name = true)
    (hpending : isComponent pending = true)
    (primary : Option Raised) :
    Claims C expected (Holding name pending g) (restoreClaim name label pending primary) fun x w =>
      (x = .ok () ∧ Released name pending g w)
        ∨ ∃ r, x = .error r ∧ Holding name pending g w ∧ Refused name pending w
          ∧ r.Names pending := by
  unfold restoreClaim
  apply claims_bind (claims_renameBack hname hpending)
  have hgiven : directorySolo.Stable fun w => Holding name pending g w ∧ Refused name pending w :=
    fun w w' h hw => ⟨Holding.stable w w' h hw.1, Refused.stable w w' h hw.2⟩
  intro r w hinv hcase
  rcases hcase with ⟨rfl, hw⟩ | ⟨e, rfl, hne, hw, hrefused⟩
  · have hret : Claims C expected (Released name pending g) (.ret ()) fun x w =>
        (x = .ok () ∧ Released name pending g w)
          ∨ ∃ r, x = .error r ∧ Holding name pending g w ∧ Refused name pending w
            ∧ r.Names pending :=
      Hoare.ret Released.stable fun w hw => .inl ⟨rfl, hw⟩
    exact hret w hinv hw
  · have hraise : ∀ r : Raised, r.Names pending →
        Claims C expected (fun w => Holding name pending g w ∧ Refused name pending w)
          (.raise r : DirProg Unit) fun x w =>
          (x = .ok () ∧ Released name pending g w)
            ∨ ∃ r, x = .error r ∧ Holding name pending g w ∧ Refused name pending w
              ∧ r.Names pending :=
      fun r hr => Hoare.raise hgiven fun w hw => .inr ⟨r, rfl, hw.1, hw.2, hr⟩
    cases e with
    | missing => exact absurd rfl hne
    | «exists» => exact hraise _ (names_raiseFor _ _ _) w hinv ⟨hw, hrefused⟩
    | other => exact hraise _ (names_raiseFor _ _ _) w hinv ⟨hw, hrefused⟩

/-- Whatever goes wrong, the entry is moved back or named in the exception. -/
theorem claims_restore_raise {α : Type} (hname : isComponent name = true)
    (hpending : isComponent pending = true)
    (primary e : Raised) :
    Claims C expected (Holding name pending g)
      ((restoreClaim name label pending (some primary)).handle
        (fun _ => .raise e) .raise : DirProg α) fun x w =>
        ∃ r, x = .error r ∧ GivenUp name pending g r w := by
  have hraise : ∀ r, Claims C expected (GivenUp name pending g r) (.raise r : DirProg α) fun x w =>
      ∃ r, x = .error r ∧ GivenUp name pending g r w :=
    fun r => Hoare.raise GivenUp.stable fun w hw => ⟨r, rfl, hw⟩
  apply (claims_restoreClaim hname hpending (some primary)).handle
  · rintro u w hinv (⟨-, hw⟩ | ⟨r, hr, -⟩)
    · exact hraise e w hinv (.inl hw)
    · exact absurd hr (by simp)
  · rintro r w hinv (⟨hr, -⟩ | ⟨r', hr, hw⟩)
    · exact absurd hr (by simp)
    · obtain rfl := Except.error.inj hr
      exact hraise r w hinv (.inr hw)

/-- The entry is held and open. -/
structure Reading (name pending : Name) (g : Node) (w : Directory) : Prop where
  holding : Holding name pending g w
  opened : w.opened = some g

theorem Reading.stable : directorySolo.Stable (Reading name pending g) :=
  fun w w' h hw => ⟨Holding.stable w w' h hw.holding, h.opened.trans hw.opened⟩

/-- What is known of an answer is known of the value that is not raised. -/
theorem claims_sysAt_fact {α : Type} {P : Directory → Prop} {Fact : α → Prop} {p : DirProg (Sys α)}
    (hP : directorySolo.Stable P)
    (h : Claims C expected P p fun x w => ∃ r, x = .ok r ∧ P w ∧ ∀ a, r = .ok a → Fact a) :
    Claims C expected P (sysAt p) fun x w => P w ∧ ∀ a, x = .ok a → Fact a := by
  apply claims_sysAt h
  · exact fun r w w' henv hw => ⟨hP w w' henv hw.1, hw.2⟩
  · rintro a w ⟨hw, ha⟩
    refine ⟨hw, fun b hb => ?_⟩
    obtain rfl := Except.ok.inj hb
    exact ha a rfl
  · exact fun e w hw => ⟨hw.1, fun _ h => absurd h (by simp)⟩

/-- The status of an open file is that of the held entry. -/
theorem claims_fstat :
    Claims C expected (Reading name pending g) (sysAt (ask .fstat)) fun x w =>
      Reading name pending g w ∧ ∀ st, x = .ok st → st.Of g := by
  have hlooks : Looks .fstat := trivial
  apply claims_sysAt_fact Reading.stable
  apply claims_look hlooks Reading.stable
  · exact fun r w w' h hw => ⟨Reading.stable w w' h hw.1, hw.2⟩
  · intro w r hw hr
    cases r with
    | ok st =>
      refine ⟨hw, fun st' hst' => ?_⟩
      obtain rfl := Except.ok.inj hst'
      exact hr g hw.opened
    | error e =>
      exact ⟨⟨hw.holding.looks hlooks _, (fail_same w e).2.2.2.trans hw.opened⟩, fun _ h =>
        absurd h (by simp)⟩

/-- Its bytes are those of the held entry. -/
theorem claims_readAll (limit : Option Nat) :
    Claims C expected (Reading name pending g) (sysAt (ask (.readAll limit))) fun x w =>
      Reading name pending g w ∧ ∀ data, x = .ok data → Reads limit data g := by
  have hlooks : Looks (.readAll limit) := trivial
  apply claims_sysAt_fact Reading.stable
  apply claims_look hlooks Reading.stable
  · exact fun r w w' h hw => ⟨Reading.stable w w' h hw.1, hw.2⟩
  · intro w r hw hr
    cases r with
    | ok data =>
      refine ⟨hw, fun data' hdata' => ?_⟩
      obtain rfl := Except.ok.inj hdata'
      exact hr g hw.opened
    | error e =>
      exact ⟨⟨hw.holding.looks hlooks _, (fail_same w e).2.2.2.trans hw.opened⟩, fun _ h =>
        absurd h (by simp)⟩

/-- What passes the comparison is owned: data that stops at the limit has the wrong size. -/
theorem owned_of_compared {st : FileStat} {data : Bytes} (hst : st.Of g)
    (hdata : Reads expected.size data g)
    (hregular : st.regular = true) (hidentity : (st.identity == expected.identity) = true)
    (hsize : expected.size.all (· == data.length) = true)
    (hdigest : expected.digest.all (· == C.sha256 data) = true) : Owned C expected g := by
  have hcontent : data = g.content := by
    rcases hdata with hdata | ⟨m, hm, hlt, -⟩
    · exact hdata
    · rw [hm] at hsize
      have heq : m = data.length := by simpa using hsize
      omega
  subst hcontent
  refine ⟨hst.2.1.symm.trans hregular, hst.1.symm.trans (beq_iff_eq.mp hidentity), ?_, ?_⟩
  · intro n hn
    rw [Option.mem_def.mp hn] at hsize
    exact (show n = g.content.length by simpa using hsize).symm
  · intro d hd
    rw [Option.mem_def.mp hd] at hdigest
    exact (show d = C.sha256 g.content by simpa using hdigest).symm

/-- Reading the held entry changes nothing, and an accepted digest makes the entry ours. -/
theorem claims_readGeneration :
    Claims C expected (Reading name pending g) (readGeneration C expected) fun x w =>
      Holding name pending g w ∧ (x = .ok true → Owned C expected g) := by
  have hend : ∀ e, Claims C expected (Reading name pending g) (.raise e : DirProg Bool) fun x w =>
      Holding name pending g w ∧ (x = .ok true → Owned C expected g) :=
    fun e => Hoare.raise Reading.stable fun w hw => ⟨hw.holding, fun h => absurd h (by simp)⟩
  unfold readGeneration
  apply claims_fstat.handle
  · intro opened
    apply (Hoare.pure (fun hopened : opened.Of g => ?_)).weaken
      (fun w hw => ⟨hw.2 opened rfl, hw.1⟩)
      fun _ _ hx => hx
    apply (claims_readAll expected.size).handle
    · intro data
      apply (Hoare.pure (fun hdata : Reads expected.size data g => ?_)).weaken
        (fun w hw => ⟨hw.2 data rfl, hw.1⟩)
        fun _ _ hx => hx
      apply claims_fstat.handle
      · intro final
        refine (Hoare.ret Reading.stable fun w hw => ⟨hw.holding, fun h => ?_⟩).weaken
          (fun w hw => hw.1)
          fun _ _ hx => hx
        have hall := Except.ok.inj h
        simp only [Bool.and_eq_true] at hall
        obtain ⟨⟨⟨⟨hregular, hidentity⟩, -⟩, hsize⟩, hdigest⟩ := hall
        exact owned_of_compared hopened hdata hregular hidentity hsize hdigest
      · exact fun e => (hend e).weaken (fun w hw => hw.1) fun _ _ hx => hx
    · exact fun e => (hend e).weaken (fun w hw => hw.1) fun _ _ hx => hx
  · exact fun e => (hend e).weaken (fun w hw => hw.1) fun _ _ hx => hx

/-- Inspecting the content either decides about the held entry or ends with an error, after which
the entry is given back if that is possible. -/
theorem claims_inspectContent (hname : isComponent name = true)
    (hpending : isComponent pending = true) :
    Claims C expected (Holding name pending g) (inspectContent C name expected label pending)
    fun x w =>
      (∃ owned, x = .ok owned ∧ Holding name pending g w ∧ (owned = true → Owned C expected g))
        ∨ ∃ r, x = .error r ∧ GivenUp name pending g r w := by
  have hgive : ∀ primary e, Claims C expected (Holding name pending g)
      ((restoreClaim name label pending (some primary)).handle
        (fun _ => .raise e) .raise : DirProg Bool) fun x w =>
        (∃ owned, x = .ok owned ∧ Holding name pending g w ∧ (owned = true → Owned C expected g))
          ∨ ∃ r, x = .error r ∧ GivenUp name pending g r w :=
    fun primary e => (claims_restore_raise hname hpending primary e).weaken (fun _ hw => hw)
      fun _ _ hx => .inr hx
  have hclose : Claims C expected (Holding name pending g) (sysAt (ask .closeFile)) fun _ w =>
      Holding name pending g w :=
    claims_sysAt (claims_look_holding (o := .closeFile) trivial) (fun _ => Holding.stable)
      (fun _ _ hw => hw)
      fun _ _ hw => hw
  have hopen : Claims C expected (Holding name pending g)
    (sysAt (ask (.openFile pending))) fun x w =>
      Holding name pending g w ∧ (x = .ok () → w.opened = some g) := by
    have hlooks : Looks (.openFile pending) := trivial
    have hlook : Claims C expected (Holding name pending g) (ask (.openFile pending)) fun x w =>
        ∃ r : Sys Unit, x = .ok r ∧ Holding name pending g w
          ∧ (r = .ok () → w.opened = some g) := by
      apply claims_look hlooks Holding.stable
      · exact fun r w w' h hw => ⟨Holding.stable w w' h hw.1, fun hr => h.opened.trans (hw.2 hr)⟩
      · intro w r hw hr
        refine ⟨hw.looks hlooks r, fun hok => ?_⟩
        subst hok
        exact hw.entry
    apply claims_sysAt hlook
    · exact fun r w w' h hw => ⟨Holding.stable w w' h hw.1, fun hr => h.opened.trans (hw.2 hr)⟩
    · exact fun u w hw => ⟨hw.1, fun _ => hw.2 rfl⟩
    · exact fun e w hw => ⟨hw.1, fun h => absurd h (by simp)⟩
  unfold inspectContent
  apply hopen.handle
  · intro u
    have hread : Claims C expected
        (fun w => Holding name pending g w
          ∧ ((.ok u : Outcome Raised Unit) = .ok () → w.opened = some g))
        (readGeneration C expected) fun x w => Holding name pending g w
          ∧ (x = .ok true → Owned C expected g) :=
      claims_readGeneration.weaken (fun w hw => ⟨hw.1, hw.2 rfl⟩) fun _ _ hx => hx
    apply hread.handle
    · -- the comparison has an answer; it stands once the descriptor is closed
      intro owned
      apply (Hoare.pure (fun howned : (owned = true → Owned C expected g) => ?_)).weaken
        (fun w hw => ⟨fun h => hw.2 (congrArg Except.ok h), hw.1⟩) fun _ _ hx => hx
      apply hclose.handle
      · exact fun _ => Hoare.ret Holding.stable fun w hw => .inl ⟨owned, rfl, hw, howned⟩
      · exact fun e => hgive e e
    · intro primary
      apply (hclose.weaken (fun w hw => hw.1) fun _ _ hx => hx).handle
      · exact fun _ => hgive primary primary
      · exact fun cleanup => hgive primary _
  · intro e
    exact (hgive e e).weaken (fun w hw => hw.1) fun _ _ hx => hx

/-- The owned entry is gone where no exception is raised. -/
theorem claims_unlinkClaim (howned : Owned C expected g) :
    Claims C expected (Holding name pending g) (unlinkClaim pending) fun x w =>
      (x = .ok () ∧ Deleted name pending g w) ∨ ∃ r, x = .error r ∧ Holding name pending g w := by
  have hraise : ∀ r, Claims C expected (Holding name pending g) (.raise r : DirProg Unit) fun x w =>
      (x = .ok () ∧ Deleted name pending g w) ∨ ∃ r, x = .error r ∧ Holding name pending g w :=
    fun r => Hoare.raise Holding.stable fun w hw => .inr ⟨r, rfl, hw⟩
  have hunlink : Claims C expected (Holding name pending g) (ask (.unlink pending)) fun x w =>
      ∃ r : Sys Unit, x = .ok r ∧ ((r = .ok () ∧ Deleted name pending g w)
        ∨ ∃ e, r = .error e ∧ e ≠ .missing ∧ Holding name pending g w) := by
    apply Hoare.perform Holding.stable
    · rintro r w w' henv ⟨r', hr', ⟨hok, hw⟩ | ⟨e, he, hne, hw⟩⟩
      · exact ⟨r', hr', .inl ⟨hok, Deleted.stable w w' henv hw⟩⟩
      · exact ⟨r', hr', .inr ⟨e, he, hne, Holding.stable w w' henv hw⟩⟩
    · intro w r hinv hw hr
      cases r with
      | ok u =>
        have hnext : directorySolo.next w (.unlink pending) (.ok u) = w.remove pending g :=
          Directory.next_unlink u hw.entry
        rw [hnext]
        refine ⟨?_, _, rfl, .inl ⟨rfl, ?_, ?_, ?_⟩⟩
        · intro n h hmem
          rcases List.mem_append.mp hmem with hmem | hmem
          · exact hinv n h hmem
          · obtain ⟨-, rfl⟩ := DirEffect.unlinked.inj (List.mem_singleton.mp hmem)
            exact howned
        · exact List.mem_append_left _ hw.claimed
        · exact List.mem_append_right _ (List.mem_singleton_self _)
        · intro b h hmem
          rcases List.mem_append.mp hmem with hmem | hmem
          · exact (hw.only _ _ _ hmem).1
          · exact absurd (List.mem_singleton.mp hmem) (by simp)
      | error e =>
        have hne : e ≠ .missing := by
          rintro rfl
          exact absurd (hr.symm.trans hw.entry) (by simp)
        have hsame := fail_same w e
        refine ⟨?_, _, rfl, .inr ⟨e, rfl, hne, ⟨hsame.2.1.trans hw.held, ?_, ?_, ?_⟩⟩⟩
        · exact fun n h hmem => hinv n h (hsame.2.2.1 ▸ hmem)
        · exact (congrFun hsame.1 pending).trans hw.entry
        · exact hsame.2.2.1.symm ▸ hw.claimed
        · exact hsame.2.2.1.symm ▸ hw.only
  have hstat : Claims C expected (Holding name pending g) (ask (.stat pending)) fun x w =>
      ∃ r : Sys FileStat, x = .ok r ∧ Holding name pending g w ∧ r ≠ .error .missing := by
    have hlooks : Looks (.stat pending) := trivial
    apply claims_look hlooks Holding.stable
    · exact fun r w w' h hw => ⟨Holding.stable w w' h hw.1, hw.2⟩
    · intro w r hw hr
      refine ⟨hw.looks hlooks r, ?_⟩
      rintro rfl
      exact absurd (hr.symm.trans hw.entry) (by simp)
  unfold unlinkClaim
  apply claims_bind hunlink
  rintro r w hinv (⟨rfl, hw⟩ | ⟨e, rfl, hne, hw⟩)
  · have hret : Claims C expected (Deleted name pending g) (.ret ()) fun x w =>
        (x = .ok () ∧ Deleted name pending g w) ∨ ∃ r, x = .error r ∧ Holding name pending g w :=
      Hoare.ret Deleted.stable fun w hw => .inl ⟨rfl, hw⟩
    exact hret w hinv hw
  · have hrest : ∀ (k : Sys FileStat → DirProg Unit), (∀ st, ∃ r, k (.ok st) = .raise r) →
        (∀ e, e ≠ .missing → ∃ r, k (.error e) = .raise r) →
        Claims C expected (Holding name pending g) ((ask (.stat pending)).handle k .raise)
          fun x w =>
          (x = .ok () ∧ Deleted name pending g w) ∨ ∃ r, x = .error r
            ∧ Holding name pending g w := by
      intro k hok herror
      apply claims_bind hstat
      rintro r w hinv ⟨hw, hmissing⟩
      cases r with
      | ok st =>
        obtain ⟨r, hr⟩ := hok st
        rw [hr]
        exact hraise r w hinv hw
      | error e =>
        obtain ⟨r, hr⟩ := herror e fun he => hmissing (he ▸ rfl)
        rw [hr]
        exact hraise r w hinv hw
    cases e with
    | missing => exact absurd rfl hne
    | «exists» =>
      refine hrest _ (fun st => ⟨_, rfl⟩) ?_ w hinv hw
      rintro (_ | _ | _) he <;> first | exact ⟨_, rfl⟩ | exact absurd rfl he
    | other =>
      refine hrest _ (fun st => ⟨_, rfl⟩) ?_ w hinv hw
      rintro (_ | _ | _) he <;> first | exact ⟨_, rfl⟩ | exact absurd rfl he

/-- How a call of `remove_owned_at` ends. -/
structure Settled (C : Crypto) (name : Name) (expected : Expectation) (x : Outcome Raised Bool)
    (w : Directory) :
    Prop where
  /-- it answers `True` only where it has removed what it picked up, an owned generation -/
  removed : x = .ok true → ∃ pending g, Deleted name pending g w ∧ Owned C expected g
  /-- a foreign generation it picked up is moved back, or stands under the private name the
  exception states -/
  foreign : ∀ pending g, .moved name pending g ∈ w.log → ¬ Owned C expected g →
    .moved pending name g ∈ w.log
      ∨ (w.entries pending = some g ∧ Refused name pending w ∧ ∃ r, x = .error r ∧ r.Names pending)

variable {x : Outcome Raised Bool} {w : Directory}

theorem settled_of_released (h : Released name pending g w) (hx : x ≠ .ok true) :
    Settled C name expected x w :=
  ⟨fun h' => absurd h' hx, fun b g' hmem _ => .inl (h.only b g' hmem)⟩

theorem settled_of_untouched (h : Untouched w) (hx : x ≠ .ok true) : Settled C name expected x w :=
  ⟨fun h' => absurd h' hx, fun _ _ hmem _ => absurd hmem (h.moved _ _ _)⟩

theorem settled_of_deleted (h : Deleted name pending g w) (howned : Owned C expected g) :
    Settled C name expected x w :=
  ⟨fun _ => ⟨pending, g, h, howned⟩, fun b g' hmem hforeign =>
    absurd (h.only b g' hmem ▸ howned) hforeign⟩

theorem settled_of_owned (h : Holding name pending g w) (howned : Owned C expected g)
    (hx : x ≠ .ok true) :
    Settled C name expected x w :=
  ⟨fun h' => absurd h' hx, fun _ _ hmem hforeign =>
    absurd ((h.only _ _ _ hmem).1 ▸ howned) hforeign⟩

theorem settled_of_givenUp {r : Raised} (h : GivenUp name pending g r w) :
    Settled C name expected (.error r) w := by
  rcases h with h | ⟨h, hrefused, hnames⟩
  · exact settled_of_released h (by simp)
  · refine ⟨fun h' => absurd h' (by simp), fun b g' hmem _ => .inr ?_⟩
    obtain ⟨rfl, -, rfl⟩ := h.only _ _ _ hmem
    exact ⟨h.entry, hrefused, r, rfl, hnames⟩

/-- The directory is synced, and what is in the log stays. -/
theorem claims_fsync {P : Directory → Prop} {Q : Outcome Raised Bool → Directory → Prop} {b : Bool}
    (hP : directorySolo.Stable P) (hlog : ∀ w w' : Directory, w'.log = w.log → P w → P w')
    (hok : ∀ w, P w → Q (.ok b) w) (herror : ∀ r w, P w → Q (.error r) w) :
    Claims C expected P ((sysAt (ask .fsync)).handle (fun _ => .ret b) .raise) Q := by
  have hlooks : Looks .fsync := trivial
  have hsync : Claims C expected P (sysAt (ask .fsync)) fun _ w => P w := by
    have hlook : Claims C expected P (ask .fsync) fun x w => ∃ r : Sys Unit, x = .ok r ∧ P w :=
      claims_look hlooks hP (fun _ => hP) fun w r hw _ => hlog _ _ (next_looks hlooks r).2.2 hw
    exact claims_sysAt hlook (fun _ => hP) (fun _ _ hw => hw) fun _ _ hw => hw
  exact hsync.handle (fun _ => Hoare.ret hP hok) fun e => Hoare.raise hP (herror e)

/-- The same with the check of the kind and of the links before it. -/
theorem claims_generationOwned (hname : isComponent name = true)
    (hpending : isComponent pending = true)
    {metadata : FileStat} (hof : metadata.Of g) :
    Claims C expected (Holding name pending g)
    (generationOwned C name expected label pending metadata) fun x w =>
      (∃ owned, x = .ok owned ∧ Holding name pending g w ∧ (owned = true → Owned C expected g))
        ∨ ∃ r, x = .error r ∧ GivenUp name pending g r w := by
  unfold generationOwned
  dsimp only
  split
  · exact claims_inspectContent hname hpending
  · next hplain =>
    apply Hoare.ret Holding.stable
    refine fun w hw => .inl ⟨_, rfl, hw, fun hidentical => ?_⟩
    -- neither size nor digest is given
    rw [hidentical, Bool.true_and, Bool.not_eq_true, Bool.or_eq_false_iff,
      Option.isSome_eq_false_iff,
      Option.isSome_eq_false_iff, Option.isNone_iff_eq_none, Option.isNone_iff_eq_none] at hplain
    simp only [Bool.and_eq_true, beq_iff_eq] at hidentical
    refine ⟨hof.2.1.symm.trans hidentical.1, hof.1.symm.trans hidentical.2, ?_, ?_⟩
    · rw [hplain.1]
      simp
    · rw [hplain.2]
      simp

/-- The end removes what is ours and gives back what is not. -/
theorem claims_finishClaim (hname : isComponent name = true) (hpending : isComponent pending = true)
    {owned : Bool}
    (howned : owned = true → Owned C expected g) :
    Claims C expected (Holding name pending g) (finishClaim name label pending owned)
    (Settled C name expected) := by
  unfold finishClaim
  cases owned with
  | true =>
    apply (claims_unlinkClaim (howned rfl)).handle
    · rintro u w hinv (⟨-, hw⟩ | ⟨r, hr, -⟩)
      · have hsync : Claims C expected (Deleted name pending g)
            ((sysAt (ask .fsync)).handle (fun _ => .ret true) .raise) (Settled C name expected) :=
          claims_fsync Deleted.stable
            (fun w w' hlog hw => ⟨hlog ▸ hw.claimed, hlog ▸ hw.unlinked, hlog ▸ hw.only⟩)
            (fun w hw => settled_of_deleted hw (howned rfl)) fun r w hw =>
              settled_of_deleted hw (howned rfl)
        exact hsync w hinv hw
      · exact absurd hr (by simp)
    · rintro e w hinv (⟨he, -⟩ | ⟨r, hr, hw⟩)
      · exact absurd he (by simp)
      · have hraise : Claims C expected (Holding name pending g) (.raise e : DirProg Bool)
            (Settled C name expected) :=
          Hoare.raise Holding.stable fun w hw => settled_of_owned hw (howned rfl) (by simp)
        exact hraise w hinv hw
  | false =>
    apply (claims_restoreClaim hname hpending none).handle
    · rintro u w hinv (⟨-, hw⟩ | ⟨r, hr, -⟩)
      · have hsync : Claims C expected (Released name pending g)
            ((sysAt (ask .fsync)).handle (fun _ => .ret false) .raise) (Settled C name expected) :=
          claims_fsync Released.stable (fun w w' hlog hw => ⟨hlog ▸ hw.back, hlog ▸ hw.only⟩)
            (fun w hw => settled_of_released hw (by simp)) fun r w hw =>
              settled_of_released hw (by simp)
        exact hsync w hinv hw
      · exact absurd hr (by simp)
    · rintro e w hinv (⟨he, -⟩ | ⟨r, hr, hw⟩)
      · exact absurd he (by simp)
      · obtain rfl := Except.error.inj hr
        have hraise : Claims C expected (GivenUp name pending g e) (.raise e : DirProg Bool)
            (Settled C name expected) :=
          Hoare.raise GivenUp.stable fun w hw => settled_of_givenUp hw
        exact hraise w hinv (.inr hw)

/-- From the moment the entry is held, everything ends settled. -/
theorem claims_settleClaim (hname : isComponent name = true)
    (hpending : isComponent pending = true) :
    Claims C expected (Holding name pending g) (settleClaim C name expected label pending)
      (Settled C name expected) := by
  have hstat : Claims C expected (Holding name pending g) (ask (.stat pending)) fun x w =>
      ∃ r : Sys FileStat, x = .ok r ∧ Holding name pending g w ∧ r ≠ .error .missing
        ∧ ∀ st, r = .ok st → st.Of g := by
    have hlooks : Looks (.stat pending) := trivial
    apply claims_look hlooks Holding.stable
    · exact fun r w w' h hw => ⟨Holding.stable w w' h hw.1, hw.2⟩
    · intro w r hw hr
      refine ⟨hw.looks hlooks r, ?_, ?_⟩
      · rintro rfl
        exact absurd (hr.symm.trans hw.entry) (by simp)
      · rintro st rfl
        obtain ⟨node, hnode, hst⟩ := hr
        obtain rfl := Option.some.inj (hw.entry.symm.trans hnode)
        exact hst
  have hgive : ∀ primary, Claims C expected (Holding name pending g)
      (restoreAndRaise name label pending primary : DirProg Bool) (Settled C name expected) := by
    intro primary
    apply (claims_restore_raise hname hpending primary primary).weaken fun _ hw => hw
    rintro x w ⟨r, rfl, hr⟩
    exact settled_of_givenUp hr
  unfold settleClaim
  apply claims_bind hstat
  rintro (e | metadata) w hinv ⟨hw, hmissing, hst⟩
  · cases e with
    | missing => exact absurd rfl hmissing
    | «exists» => exact hgive _ w hinv hw
    | other => exact hgive _ w hinv hw
  · refine (claims_generationOwned hname hpending (hst metadata rfl)).handle ?_ ?_ w hinv hw
    · rintro owned w hinv (⟨owned', hsame, hw, howned⟩ | ⟨r, hr, -⟩)
      · obtain rfl := Except.ok.inj hsame
        exact claims_finishClaim hname hpending howned w hinv hw
      · exact absurd hr (by simp)
    · rintro e w hinv (⟨b, he, -⟩ | ⟨r, hr, hw⟩)
      · exact absurd he (by simp)
      · obtain rfl := Except.error.inj hr
        have hraise : Claims C expected (GivenUp name pending g e) (.raise e : DirProg Bool)
            (Settled C name expected) :=
          Hoare.raise GivenUp.stable fun w hw => settled_of_givenUp hw
        exact hraise w hinv hw

/-- What the attempts to claim the entry end with. -/
def Reserved (name : Name) (x : Outcome Raised (Option Name)) (w : Directory) : Prop :=
  (∃ pending g, x = .ok (some pending) ∧ Holding name pending g w ∧ isComponent name = true
      ∧ isComponent pending = true)
    ∨ ((x = .ok none ∨ ∃ r, x = .error r) ∧ Untouched w)

/-- One attempt to move the entry to a private name. -/
theorem claims_attempt (candidate : Name) :
    Claims C expected Untouched (exclusiveRenameAt name candidate) fun x w =>
      (x = .ok (.ok ()) ∧ isComponent name = true ∧ isComponent candidate = true
        ∧ ∃ g, Holding name candidate g w)
        ∨ (x ≠ .ok (.ok ()) ∧ Untouched w) := by
  by_cases hcomponents : isComponent name = true ∧ isComponent candidate = true
  · rw [exclusiveRenameAt_eq hcomponents.1 hcomponents.2]
    apply Hoare.perform Untouched.stable
    · rintro r w w' henv (⟨hx, hn, hc, g, hw⟩ | ⟨hx, hw⟩)
      · exact .inl ⟨hx, hn, hc, g, Holding.stable w w' henv hw⟩
      · exact .inr ⟨hx, Untouched.stable w w' henv hw⟩
    · intro w r hinv hw hr
      cases r with
      | ok u =>
        obtain ⟨g, hg⟩ := Option.ne_none_iff_exists'.mp hr.1
        have hnext : directorySolo.next w (.renameExclusive name candidate) (.ok u)
          = w.move name candidate g :=
          Directory.next_renameExclusive u hg
        rw [hnext]
        refine ⟨?_, .inl ⟨rfl, hcomponents.1, hcomponents.2, g, ⟨?_, ?_, ?_, ?_⟩⟩⟩
        · intro n h hmem
          rcases List.mem_append.mp hmem with hmem | hmem
          · exact hinv n h hmem
          · exact absurd (List.mem_singleton.mp hmem) (by simp)
        · show (if w.held = some (name, g) then none else some (candidate, g)) = _
          rw [hw.held, if_neg (by simp)]
        · exact Function.update_self ..
        · exact List.mem_append_right _ (List.mem_singleton_self _)
        · intro a b h hmem
          rcases List.mem_append.mp hmem with hmem | hmem
          · exact absurd hmem (hw.moved a b h)
          · obtain ⟨rfl, rfl, rfl⟩ := DirEffect.moved.inj (List.mem_singleton.mp hmem)
            exact ⟨rfl, rfl, rfl⟩
      | error e =>
        have hsame := fail_same w e
        refine ⟨?_, .inr ⟨by rintro ⟨⟩, hsame.2.1.trans hw.held, ?_⟩⟩
        · intro n h hmem
          rcases List.mem_append.mp hmem with hmem | hmem
          · exact hinv n h hmem
          · exact absurd (List.mem_singleton.mp hmem) (by simp)
        · intro a b h hmem
          rcases List.mem_append.mp hmem with hmem | hmem
          · exact hw.moved a b h hmem
          · exact absurd (List.mem_singleton.mp hmem) (by simp)
  · have hrefuse : exclusiveRenameAt name candidate
        = .raise ⟨valueError "exclusive rename requires single path components", none⟩ :=
      if_neg (by simpa using hcomponents)
    rw [hrefuse]
    exact Hoare.raise Untouched.stable fun w hw => .inr ⟨by simp, hw⟩

/-- The attempts leave every entry alone, or end with one under a private name. -/
theorem claims_reserve (attempts : Nat) :
    Claims C expected Untouched (reserve name label attempts) (Reserved name) := by
  have hraise : ∀ r, Claims C expected Untouched (.raise r : DirProg (Option Name))
    (Reserved name) :=
    fun r => Hoare.raise Untouched.stable fun w hw => .inr ⟨.inr ⟨r, rfl⟩, hw⟩
  induction attempts with
  | zero => exact hraise _
  | succ attempts ih =>
    have hlooks : Looks .tokenHex := trivial
    have htoken : Claims C expected Untouched (ask .tokenHex) fun x w => ∃ r :
      PyStr, x = .ok r ∧ Untouched w :=
      claims_look hlooks Untouched.stable (fun _ => Untouched.stable) fun w r hw _ => hw
    unfold reserve
    apply claims_bind htoken
    intro token
    change PyStr at token
    apply (claims_attempt _).handle
    · rintro r w hinv (⟨hx, hn, hc, g, hw⟩ | ⟨hx, hw⟩)
      · obtain rfl := Except.ok.inj hx
        have hret : Claims C expected (Holding name (lit ".sddgov.cleanup-pending-" ++ token) g)
            (.ret (some (lit ".sddgov.cleanup-pending-" ++ token))) (Reserved name) :=
          Hoare.ret Holding.stable fun w hw => .inl ⟨_, g, rfl, hw, hn, hc⟩
        exact hret w hinv hw
      · rcases r with (_ | _ | _) | _
        · exact ih w hinv hw
        · have hret : Claims C expected Untouched (.ret none) (Reserved name) :=
            Hoare.ret Untouched.stable fun w hw => .inr ⟨.inl rfl, hw⟩
          exact hret w hinv hw
        · exact hraise _ w hinv hw
        · exact absurd rfl hx
    · rintro r w hinv (⟨hx, -⟩ | ⟨-, hw⟩)
      · exact absurd hx (by simp)
      · exact hraise r w hinv hw

/-- The whole removal ends settled, from any state in which nothing was touched. -/
theorem claims_removeOwnedAt :
    Claims C expected Untouched (removeOwnedAt C name expected label)
    (Settled C name expected) := by
  unfold removeOwnedAt
  apply (claims_reserve 16).handle
  · rintro r w hinv (⟨pending, g, hx, hw, hname, hpending⟩ | ⟨hx | ⟨e, hx⟩, hw⟩)
    · obtain rfl := Except.ok.inj hx
      exact claims_settleClaim hname hpending w hinv hw
    · obtain rfl := Except.ok.inj hx
      have hret : Claims C expected Untouched (.ret false) (Settled C name expected) :=
        Hoare.ret Untouched.stable fun w hw => settled_of_untouched hw (by simp)
      exact hret w hinv hw
    · exact absurd hx (by simp)
  · rintro e w hinv (⟨pending, g, hx, -⟩ | ⟨-, hw⟩)
    · exact absurd hx (by simp)
    · have hraise : Claims C expected Untouched (.raise e) (Settled C name expected) :=
        Hoare.raise Untouched.stable fun w hw => settled_of_untouched hw (by simp)
      exact hraise w hinv hw

end Steps

/-! ## Every interleaving -/

/-- **`remove_owned_at` among other writers**, with any calls failing: at every
moment it has deleted owned generations only, and it ends with whatever it picked
up removed, moved back, or named in its exception. -/
theorem remove_owned_safe (C : Crypto) (name : Name) (expected : Expectation) (label : PyStr)
    {w : Directory}
    (hheld : w.held = none) (hlog : w.log = []) {c : Conf Unit Directory dirSig Raised Bool}
    (hc : directorySolo.sem.Reach (Solo.start w (removeOwnedAt C name expected label)) c) :
    OnlyOwned C expected c.world
      ∧ ∀ x, c.threads () = some (Prog.ofOutcome x) → Settled C name expected x c.world := by
  have hinv : OnlyOwned C expected w := by
    intro n g hmem
    rw [hlog] at hmem
    exact absurd hmem (by simp)
  have huntouched : Untouched w := by
    refine ⟨hheld, fun a b g hmem => ?_⟩
    rw [hlog] at hmem
    exact absurd hmem (by simp)
  exact claims_removeOwnedAt.run hinv huntouched hc

/-- A directory in which `a` is somebody else's file. -/
def foreignNode : Node := ⟨(1, 3), true, []⟩

def foreignDirectory : Directory where
  entries := fun n => if n = lit "a" then some foreignNode else none
  opened := none
  held := none
  log := []
  failures := 0

/-- The private name of the runs below. -/
def samplePending : Name := lit ".sddgov.cleanup-pending-" ++ lit "0"

/-- The file of `foreignDirectory` under the private name. -/
def claimedDirectory : Directory :=
  directorySolo.next foreignDirectory (.renameExclusive (lit "a") samplePending) (.ok ())

/-- Every call of `remove_owned_at` up to the look at the claimed file, before which others
write. -/
theorem reach_claimed {C : Crypto} {expected : Expectation} {w : Directory}
    (hothers : Directory.Others claimedDirectory w) {c : Conf Unit Directory dirSig Raised Bool}
    (hc : directorySolo.sem.Reach
      (Solo.start w
        (((generationOwned C (lit "a") expected [] samplePending ⟨(1, 3), true, 0, 0, 0, 1⟩).handle
          (finishClaim (lit "a") [] samplePending) .raise))) c) :
    directorySolo.sem.Reach (Solo.start foreignDirectory (removeOwnedAt C (lit "a") expected []))
    c := by
  have hrename : directorySolo.allows foreignDirectory (.renameExclusive (lit "a") samplePending)
    (.ok ()) :=
    ⟨by simp [foreignDirectory], rfl⟩
  have hstat : directorySolo.allows w (.stat samplePending)
      (.ok (⟨(1, 3), true, 0, 0, 0, 1⟩ : FileStat)) :=
    ⟨foreignNode, hothers.entries samplePending foreignNode rfl, rfl, rfl, rfl⟩
  exact Solo.reach_call (lit "0" : PyStr) trivial
    (Solo.reach_call _ hrename (Solo.reach_env hothers (Solo.reach_call _ hstat hc)))

/-- A run in which only the rename back fails: the foreign file stays under the
private name, although nobody has taken its own. -/
theorem remove_owned_stranded :
    ¬ ∀ (C : Crypto) (name : Name) (expected : Expectation) (label : PyStr) (w : Directory)
        (c : Conf Unit Directory dirSig Raised Bool), w.held = none → w.log = [] →
      directorySolo.sem.Reach (Solo.start w (removeOwnedAt C name expected label)) c →
      c.world.failures ≤ w.failures + 1 → ∀ x, c.threads () = some (Prog.ofOutcome x) →
      ∀ pending g, .moved name pending g ∈ c.world.log → ¬ Owned C expected g →
        .moved pending name g ∈ c.world.log ∨ ∃ e, .refused pending name e true ∈ c.world.log := by
  intro h
  let C : Crypto := .ofTables [] []
  let expected : Expectation := ⟨(1, 2), none, none⟩
  let w : Directory := directorySolo.next claimedDirectory
    (.renameExclusive samplePending (lit "a")) (.error .other)
  let r : Raised := raiseFor none
    (.value ([] ++ lit " cleanup could not restore the original name" ++ preserved samplePending))
      .other
  have hrun : directorySolo.sem.Reach
    (Solo.start foreignDirectory (removeOwnedAt C (lit "a") expected []))
      (Solo.start w (.raise r)) :=
    reach_claimed (directorySolo.refl _)
      (Solo.reach_call (Except.error OsError.other) trivial .refl)
  have hforeign : ¬ Owned C expected foreignNode := fun howned => absurd howned.identity (by decide)
  have hlog : w.log = [.moved (lit "a") samplePending foreignNode,
    .refused samplePending (lit "a") .other false] := rfl
  rcases h C (lit "a") expected [] foreignDirectory _ rfl rfl hrun (by decide)
    (.error r) rfl samplePending foreignNode
    (by rw [Solo.start, hlog]; simp) hforeign with hback | ⟨e, htaken⟩
  · rw [Solo.start, hlog] at hback
    exact absurd hback (by decide)
  · rw [Solo.start, hlog] at htaken
    exact absurd htaken (by simp)

/-- A file that somebody else writes to `a` meanwhile. -/
def laterNode : Node := ⟨(1, 9), true, [byte 0x78]⟩

def retakenDirectory : Directory :=
  { claimedDirectory with entries := Function.update claimedDirectory.entries (lit "a") (some
    laterNode) }

theorem retakenDirectory_others : Directory.Others claimedDirectory retakenDirectory := by
  refine ⟨rfl, rfl, rfl, rfl, fun name node hheld => ?_⟩
  have hclaimed : claimedDirectory.held = some (samplePending, foreignNode) := rfl
  obtain ⟨rfl, -⟩ := Prod.mk.inj (Option.some.inj (hclaimed.symm.trans hheld))
  have hname : samplePending ≠ lit "a" := by decide
  exact Function.update_of_ne hname (some laterNode) claimedDirectory.entries

/-- The directory once the file, where it is the expected one, is removed. -/
def removedDirectory : Directory := directorySolo.next retakenDirectory
    (.unlink samplePending) (.ok ())

/-- Another writer takes the name while the file is under its private one: the expected file goes,
the later one stays. -/
theorem remove_owned_safe_sample :
    OnlyOwned (.ofTables [] []) ⟨(1, 3), none, none⟩ removedDirectory
      ∧ Settled (.ofTables [] []) (lit "a") ⟨(1, 3), none, none⟩ (.ok true) removedDirectory
      ∧ removedDirectory.entries (lit "a") = some laterNode := by
  have hunlink : directorySolo.allows retakenDirectory (.unlink samplePending) (.ok ()) :=
    Option.some_ne_none foreignNode
  have hrun : directorySolo.sem.Reach
      (Solo.start foreignDirectory (removeOwnedAt (.ofTables [] []) (lit "a")
        ⟨(1, 3), none, none⟩ []))
      (Solo.start removedDirectory (.ret true)) :=
    reach_claimed retakenDirectory_others
      (Solo.reach_call _ hunlink (Solo.reach_call (Except.ok ()) trivial .refl))
  have hsafe := remove_owned_safe _ _ _ _ rfl rfl hrun
  exact ⟨hsafe.1, hsafe.2 _ rfl, rfl⟩

end SddGov.FsSecurity
