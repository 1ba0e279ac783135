import SddGov.MergeGate.Review
import SddGov.TrustedRunner.Policy

/-!
# Digests that bind

An operation id is made of the digest of the operation without it, so an id goes
with one operation (`operation_of_id`); together with the review receipts of the
merge gate this is `digests_bind`. Both rest on the canonical form being
injective up to the order of members, and objects whose members have different
names are put into order in one way (`sortMembers_perm`).
-/

namespace SddGov.Python

/-! ## The order of names -/

/-- The order of the names is antisymmetric. -/
theorem strLe_antisymm {s t : PyStr} (hst : strLe s t = true) (hts : strLe t s = true) : s = t := by
  induction s generalizing t with
  | nil =>
    cases t with
    | nil => rfl
    | cons b t => exact absurd hts (by simp [strLe])
  | cons a s ih =>
    cases t with
    | nil => exact absurd hst (by simp [strLe])
    | cons b t =>
      rw [strLe] at hst hts
      by_cases hab : a = b
      · subst hab
        rw [if_pos rfl] at hst hts
        rw [ih hst hts]
      · rw [if_neg hab] at hst
        rw [if_neg (Ne.symm hab)] at hts
        have hlt : a < b := by simpa using hst
        have hgt : b < a := by simpa using hts
        exact absurd hgt (not_lt_of_gt hlt)

/-- The order of the names is transitive, so that sorting by it gives the same for every order of
the members. -/
theorem strLe_trans {s t u : PyStr} (hst : strLe s t = true) (htu : strLe t u = true) :
    strLe s u = true := by
  induction s generalizing t u with
  | nil => rfl
  | cons a s ih =>
    cases t with
    | nil => exact absurd hst (by simp [strLe])
    | cons b t =>
      cases u with
      | nil => exact absurd htu (by simp [strLe])
      | cons c u =>
        rw [strLe] at hst htu ⊢
        split at hst
        · next hab =>
          subst hab
          split at htu
          · next hac =>
            rw [if_pos hac]
            exact ih hst htu
          · next hac =>
            rw [if_neg hac]
            exact htu
        · next hab =>
          have hlt : a < b := by simpa using hst
          split at htu
          · next hbc =>
            subst hbc
            rw [if_neg hab]
            exact hst
          · have hlt' : b < c := by simpa using htu
            have hac : a < c := lt_trans hlt hlt'
            rw [if_neg (ne_of_lt hac)]
            simpa using hac

/-- Two names can be ordered. -/
theorem strLe_total (s t : PyStr) : strLe s t = true ∨ strLe t s = true := by
  induction s generalizing t with
  | nil => exact .inl rfl
  | cons a s ih =>
    cases t with
    | nil => exact .inr rfl
    | cons b t =>
      rw [strLe, strLe]
      by_cases hab : a = b
      · subst hab
        rw [if_pos rfl, if_pos rfl]
        exact ih t
      · rw [if_neg hab, if_neg (Ne.symm hab)]
        simpa using lt_or_gt_of_ne hab

theorem sortMembers_pairwise {α : Type} (m : List (PyStr × α)) :
    (sortMembers m).Pairwise fun a b => strLe a.1 b.1 = true := by
  have htotal : Std.Total fun a b : PyStr × α => strLe a.1 b.1 = true :=
    ⟨fun a b => strLe_total a.1 b.1⟩
  have htrans : IsTrans (PyStr × α) fun a b => strLe a.1 b.1 = true := ⟨fun _ _ _ => strLe_trans⟩
  exact List.pairwise_insertionSort _ m

/-- Members of different names have one order. -/
theorem sortMembers_perm {α : Type} {m m' : List (PyStr × α)} (hnames : (m.map Prod.fst).Nodup)
    (h : m.Perm m') : sortMembers m = sortMembers m' := by
  have hperm : (sortMembers m).Perm (sortMembers m') :=
    ((List.perm_insertionSort _ m).trans h).trans (List.perm_insertionSort _ m').symm
  refine List.Perm.eq_of_pairwise ?_ (sortMembers_pairwise m) (sortMembers_pairwise m') hperm
  intro a b ha hb hab hba
  have ha' : a ∈ m := mem_sortMembers.mp ha
  have hb' : b ∈ m := h.mem_iff.mpr (mem_sortMembers.mp hb)
  exact List.inj_on_of_nodup_map hnames ha' hb' (strLe_antisymm hab hba)

theorem perm_of_sortMembers {α : Type} {m m' : List (PyStr × α)}
    (h : sortMembers m = sortMembers m') :
    m.Perm m' := by
  have hleft : (sortMembers m).Perm m := List.perm_insertionSort _ m
  have hright : (sortMembers m').Perm m' := List.perm_insertionSort _ m'
  rw [h] at hleft
  exact hleft.symm.trans hright

/-- An object and its members without one name, with the value under that name first. -/
theorem members_perm {m : Members} {key : PyStr} (hnames : (keys m).Nodup)
    (hkey : hasKey key m = true) :
    m.Perm ((key, get key m) :: m.filter fun kv => kv.1 != key) := by
  induction m with
  | nil => exact absurd hkey (by simp [hasKey, lookup])
  | cons kv m ih =>
    obtain ⟨k, v⟩ := kv
    obtain ⟨hfresh, hrest⟩ := List.nodup_cons.mp hnames
    by_cases hk : k = key
    · subst hk
      have hall : m.filter (fun kv => kv.1 != k) = m := by
        rw [List.filter_eq_self]
        intro kv hkv
        rw [bne_iff_ne]
        rintro rfl
        exact hfresh (List.mem_map.mpr ⟨kv, hkv, rfl⟩)
      have hvalue : get k ((k, v) :: m) = v := by simp [get, lookup]
      rw [hvalue, List.filter_cons_of_neg (by simp), hall]
    · have hget : get key ((k, v) :: m) = get key m := by simp [get, lookup, hk]
      have hkey' : hasKey key m = true := by simpa [hasKey, lookup, hk] using hkey
      rw [hget, List.filter_cons_of_pos (by simpa using hk)]
      exact ((ih hrest hkey').cons (k, v)).trans (List.Perm.swap _ _ _)

/-- Two objects agree where they agree in one member and in the rest. -/
theorem canon_of_rest {m m' : Members} {key : PyStr} (hnames : (keys m).Nodup)
    (hnames' : (keys m').Nodup)
    (hkey : hasKey key m = true) (hkey' : hasKey key m' = true) (hvalue : get key m = get key m')
    (h : canon (.obj (m.filter fun kv => kv.1 != key))
      = canon (.obj (m'.filter fun kv => kv.1 != key))) :
    canon (.obj m) = canon (.obj m') := by
  rw [canon, canon, Json.obj.injEq, canonMembers_eq, canonMembers_eq] at h ⊢
  have hperm := (members_perm hnames hkey).map fun kv => (kv.1, canon kv.2)
  have hperm' := (members_perm hnames' hkey').map fun kv => (kv.1, canon kv.2)
  have hfst {q : Members} : (q.map fun kv => (kv.1, canon kv.2)).map Prod.fst = keys q := by
    rw [List.map_map]
    rfl
  refine sortMembers_perm (by rw [hfst]; exact hnames)
    (hperm.trans (List.Perm.trans ?_ hperm'.symm))
  rw [List.map_cons, List.map_cons, hvalue]
  exact (perm_of_sortMembers h).cons _

/-- An object has one text, in whichever order its members stand. -/
theorem dumps_perm {m m' : Members} (hnames : (keys m).Nodup) (h : m.Perm m') :
    dumps (.obj m) = dumps (.obj m') := by
  have hsome {q q' : Members} {ts : List (PyStr × PyStr)} (hts : dumpsMembers q = some ts)
    (hq : q.Perm q') :
      ∃ ts', dumpsMembers q' = some ts' := by
    apply Option.isSome_iff_exists.mp
    refine MergeGate.dumpsMembers_isSome fun kv hkv => ?_
    rw [(dumpsMembers_eq hts).2 kv (hq.mem_iff.mpr hkv)]
    rfl
  cases hts : dumpsMembers m with
  | some ts =>
    obtain ⟨ts', hts'⟩ := hsome hts h
    obtain ⟨rfl, -⟩ := dumpsMembers_eq hts
    obtain ⟨rfl, -⟩ := dumpsMembers_eq hts'
    have hfst : ((m.map fun kv => (kv.1, textOf kv.2)).map Prod.fst).Nodup := by
      rw [List.map_map]
      exact hnames
    rw [dumps, dumps, hts, hts', Option.map_some, Option.map_some, sortMembers_perm hfst (h.map _)]
  | none =>
    cases hts' : dumpsMembers m' with
    | none => rw [dumps, dumps, hts, hts']
    | some ts' =>
      obtain ⟨ts, hts''⟩ := hsome hts' h.symm
      exact absurd (hts.symm.trans hts'') (by simp)

end SddGov.Python

namespace SddGov.TrustedRunner

open SddGov.Python

variable {C : Crypto} {b b' : Bootstrap}

/-! ## Operation ids -/

/-- An accepted id is made of the digest of the operation without it. -/
theorem checkOperationId_ok {operation : Members} {operationId planHash : PyStr}
    (h : checkOperationId C operation = .ok (operationId, planHash)) :
    get (lit "operation_id") operation = .str operationId
      ∧ ∃ bytes, canonicalBytes (.obj (operation.filter fun m => m.1 != lit "operation_id"))
        = some bytes
        ∧ operationId = actionId ++ lit "@" ++ C.sha256 bytes := by
  unfold checkOperationId at h
  split at h
  · next id hid =>
    obtain ⟨plan, hplan, h⟩ := except_bind_ok.mp h
    obtain ⟨_, hsame, h⟩ := except_bind_ok.mp h
    obtain ⟨rfl, rfl⟩ := Prod.mk.inj (Except.ok.inj h)
    rw [check_ok, beq_iff_eq] at hsame
    refine ⟨hid, ?_⟩
    unfold canonicalHash at hplan
    split at hplan
    · next bytes hbytes =>
      refine ⟨bytes, hbytes, ?_⟩
      rw [hsame, ← Except.ok.inj hplan]
      rfl
    · exact absurd hplan (by simp)
  · exact absurd h (by simp [violation])

/-- A validated request has such an id. -/
theorem validateRequest_id {authority authority' : Except RunnerError PyStr} {request : Members}
    {v : ValidatedRequest} (h : validateRequest C b authority authority' request = .ok v) :
    checkOperationId C v.operation = .ok (v.operationId, v.planHash) := by
  obtain ⟨_, -, h⟩ := except_bind_ok.mp h
  obtain ⟨_, -, h⟩ := except_bind_ok.mp h
  obtain ⟨operation, -, h⟩ := except_bind_ok.mp h
  obtain ⟨_, -, h⟩ := except_bind_ok.mp h
  obtain ⟨_, -, h⟩ := except_bind_ok.mp h
  obtain ⟨_, -, h⟩ := except_bind_ok.mp h
  obtain ⟨_, -, h⟩ := except_bind_ok.mp h
  obtain ⟨_, -, h⟩ := except_bind_ok.mp h
  obtain ⟨_, -, h⟩ := except_bind_ok.mp h
  obtain ⟨_, -, h⟩ := except_bind_ok.mp h
  obtain ⟨_, -, h⟩ := except_bind_ok.mp h
  obtain ⟨_, -, h⟩ := except_bind_ok.mp h
  obtain ⟨_, -, h⟩ := except_bind_ok.mp h
  obtain ⟨⟨operationId, planHash⟩, hid, h⟩ := except_bind_ok.mp h
  obtain ⟨_, -, h⟩ := except_bind_ok.mp h
  obtain ⟨_, -, h⟩ := except_bind_ok.mp h
  obtain ⟨⟨approvalId, envelope⟩, -, h⟩ := except_bind_ok.mp h
  obtain rfl := Except.ok.inj h
  exact hid

/-- A runner has accepted a request with this operation, an object that names each member once. -/
structure Accepted (C : Crypto) (operation : Members) (operationId : PyStr) : Prop where
  run : ∃ b authority authority' request v, validateRequest C b authority authority' request = .ok v
    ∧ v.operation = operation ∧ v.operationId = operationId
  names : (keys operation).Nodup

/-- The canonical form that the id is a digest of. -/
def planBytes (operation : Members) : Option Bytes :=
  canonicalBytes (.obj (operation.filter fun m => m.1 != lit "operation_id"))

/-- **An operation id goes with one operation.** -/
theorem operation_of_id {operation operation' : Members} {operationId : PyStr}
    (hC : NoCollision C (planBytes operation) (planBytes operation'))
    (h : Accepted C operation operationId) (h' : Accepted C operation' operationId) :
    canon (.obj operation) = canon (.obj operation') := by
  obtain ⟨_, _, _, _, v, hv, rfl, rfl⟩ := h.run
  obtain ⟨_, _, _, _, v', hv', rfl, hid⟩ := h'.run
  obtain ⟨hget, bytes, hbytes, htext⟩ := checkOperationId_ok (validateRequest_id hv)
  obtain ⟨hget', bytes', hbytes', htext'⟩ := checkOperationId_ok (validateRequest_id hv')
  rw [hid] at hget' htext'
  obtain rfl : bytes = bytes' := hC bytes bytes' hbytes hbytes'
    (List.append_cancel_left (htext.symm.trans htext'))
  have hkey {m : Members} {s : PyStr} (hm : get (lit "operation_id") m = .str s) :
      hasKey (lit "operation_id") m = true := by
    unfold hasKey
    unfold Python.get at hm
    cases hlookup : lookup (lit "operation_id") m with
    | none =>
      rw [hlookup] at hm
      exact absurd hm (by simp)
    | some value => rfl
  exact canon_of_rest h.names h'.names (hkey hget) (hkey hget') (hget.trans hget'.symm)
    (canonicalBytes_inj hbytes hbytes')

/-- **What the digests bind.** Where the digested forms do not collide, gates that verify with one
review receipt have the same value in each of the eight fields, and requests accepted under one
operation id carry the same operation. -/
theorem digests_bind (C : Crypto) :
    (∀ (M M' : MergeGate.MergeHost) (H H' :
      MergeGate.ReviewHost) (baseRef baseRef' gatePath gatePath' : PyStr)
        (runChecks runChecks' : Bool) (gate gate' envelope : Members),
      NoCollision C (MergeGate.metadataBytes gate) (MergeGate.metadataBytes gate') →
      MergeGate.VerifiesWith C M H baseRef gatePath runChecks gate envelope →
      MergeGate.VerifiesWith C M' H' baseRef' gatePath' runChecks' gate' envelope →
      ∀ key ∈ MergeGate.metadataFields, get key gate = get key gate')
    ∧ ∀ (operation operation' : Members) (operationId : PyStr),
      NoCollision C (planBytes operation) (planBytes operation') →
      Accepted C operation operationId →
      Accepted C operation' operationId → canon (.obj operation) = canon (.obj operation') := by
  constructor
  · intro M M' H H' baseRef baseRef' gatePath gatePath' runChecks runChecks' gate gate'
      envelope hC h h'
    exact MergeGate.receipt_fields hC h h'
  · intro operation operation' operationId hC h h'
    exact operation_of_id hC h h'

/-- The runner accepts the operation, in either order of its members. -/
theorem rehearsal_accepted {operation : Members}
    (h : (rehearsalVerdict (.bool true) operation).isOk = true)
    (hid : get (lit "operation_id") operation = .str (rehearsalId (.bool true)))
    (hnames : (keys operation).Nodup) :
    Accepted rehearsalCrypto operation (rehearsalId (.bool true)) := by
  obtain ⟨v, hv⟩ := exists_of_isOk h
  have hoperation := rehearsal_operation hv
  obtain ⟨hget, -⟩ := checkOperationId_ok (validateRequest_id hv)
  rw [hoperation, hid] at hget
  exact ⟨⟨_, _, _, _, v, hv, hoperation, (Json.str.inj hget).symm⟩, hnames⟩

/-- Two gates with one receipt; and an operation with its members in two orders, under one id. -/
theorem digests_bind_sample :
    (∀ key ∈ MergeGate.metadataFields, get key (MergeGate.reviewedGate ".sddgov/reviews/one.json")
      = get key (MergeGate.reviewedGate ".sddgov/reviews/two.json"))
    ∧ canon (.obj (rehearsalOperation (.bool true)))
      = canon (.obj (rehearsalOperation (.bool true)).reverse) := by
  constructor
  · exact (digests_bind MergeGate.reviewCrypto).1 _ _ _ _ _ _ _ _ _ _ _ _ _
      (noCollision_of_eq (MergeGate.metadataBytes_reviewedGate _ _))
      (MergeGate.reviewed_verifies (by simp)) (MergeGate.reviewed_verifies (by simp))
  · have hnames : (keys (rehearsalOperation (.bool true))).Nodup := by decide
    have hplan : planBytes (rehearsalOperation (.bool true))
      = planBytes (rehearsalOperation (.bool true)).reverse := by
      have hperm := ((rehearsalOperation (.bool true)).reverse_perm.symm).filter fun m =>
        m.1 != lit "operation_id"
      have hrest :
        (keys ((rehearsalOperation (.bool true)).filter fun m =>
        m.1 != lit "operation_id")).Nodup :=
        hnames.sublist (List.filter_sublist.map Prod.fst)
      unfold planBytes canonicalBytes
      rw [dumps_perm hrest hperm]
    refine (digests_bind rehearsalCrypto).2 _ _ (rehearsalId (.bool true))
      (noCollision_of_eq hplan) ?_ ?_
    · exact rehearsal_accepted rehearsal_true_ok rfl hnames
    · refine rehearsal_accepted rehearsal_reversed_ok rfl ?_
      unfold keys at hnames ⊢
      rw [List.map_reverse, List.nodup_reverse]
      exact hnames

end SddGov.TrustedRunner
