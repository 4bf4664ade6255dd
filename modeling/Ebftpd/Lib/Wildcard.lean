import Mathlib.Data.Fintype.BigOperators
import Mathlib.Data.Fintype.Pigeonhole
import Mathlib.Data.List.Infix
import Mathlib.Tactic.Common

/-!
# Ebftpd.Lib.Wildcard

Patterns of single letters and stars over any alphabet, and when the words of one pattern are words
of others.

* `Covers p q`: the tokens of `q` laid under those of `p`, single letters under single letters that
  accept as much or under a star, stars under stars only. Then `p` matches whatever `q` does.
* `isMatch_absorb`: in a stretch of a word longer than the single letters of a pattern, some place
  lies under a star, and any text may be put in there.
* `exists_short`: a long word repeats what it has matched of the patterns, and can be cut there. So a
  short word shows which patterns match.
* `Probe`: the words of a pattern whose free places hold one spare letter and whose stars hold a
  bounded number of it. `matched_iff_probes`: a list of patterns that treat this letter as any other
  matches every word of a pattern if it matches the probes.
-/

namespace Ebftpd
namespace Lib
namespace Wildcard

universe u

inductive Token (α : Type u) where
  | one (accepts : α → Bool)
  | many

abbrev Pattern (α : Type u) := List (Token α)

variable {α : Type u}

def isMatch : Pattern α → List α → Bool
  | [], s => s.isEmpty
  | .one _ :: _, [] => false
  | .one accepts :: p, c :: s => accepts c && isMatch p s
  | .many :: p, s => s.tails.any fun t => isMatch p t

@[simp]
theorem isMatch_one_nil (a : α → Bool) (p : Pattern α) : isMatch (.one a :: p) [] = false := rfl

@[simp]
theorem isMatch_one_cons (a : α → Bool) (p : Pattern α) (c : α) (s : List α) :
    isMatch (.one a :: p) (c :: s) = (a c && isMatch p s) := rfl

theorem isMatch_many_cons (p : Pattern α) (c : α) (s : List α) :
    isMatch (.many :: p) (c :: s) = (isMatch p (c :: s) || isMatch (.many :: p) s) := by
  simp [isMatch]

theorem isMatch_many_iff {p : Pattern α} {s : List α} :
    isMatch (.many :: p) s = true ↔ ∃ w t, s = w ++ t ∧ isMatch p t = true := by
  simp only [isMatch, List.any_eq_true, List.mem_tails]
  constructor
  · rintro ⟨t, ⟨w, rfl⟩, ht⟩
    exact ⟨w, t, rfl, ht⟩
  · rintro ⟨w, t, rfl, ht⟩
    exact ⟨t, ⟨w, rfl⟩, ht⟩

theorem isMatch_many_of (w : List α) {p : Pattern α} {t : List α} (h : isMatch p t = true) :
    isMatch (.many :: p) (w ++ t) = true :=
  isMatch_many_iff.2 ⟨w, t, rfl, h⟩

theorem isMatch_many_append (w : List α) {p : Pattern α} {s : List α}
    (h : isMatch (.many :: p) s = true) : isMatch (.many :: p) (w ++ s) = true := by
  obtain ⟨v, t, rfl, ht⟩ := isMatch_many_iff.1 h
  rw [← List.append_assoc]
  exact isMatch_many_of _ ht

/-! ## One pattern under another -/

inductive Covers : Pattern α → Pattern α → Prop
  | nil : Covers [] []
  | one {a b : α → Bool} {p q : Pattern α} (h : ∀ c, b c = true → a c = true) (hpq : Covers p q) :
      Covers (.one a :: p) (.one b :: q)
  /-- A star takes the next token of the other pattern. -/
  | take {p q : Pattern α} (t : Token α) (hpq : Covers (.many :: p) q) : Covers (.many :: p) (t :: q)
  /-- A star takes no more. -/
  | leave {p q : Pattern α} (hpq : Covers p q) : Covers (.many :: p) q

theorem Covers.sound {p q : Pattern α} (h : Covers p q) :
    ∀ s, isMatch q s = true → isMatch p s = true := by
  induction h with
  | nil => exact fun s hs => hs
  | one hab _ ih =>
    intro s hs
    cases s with
    | nil => cases hs
    | cons c s =>
      simp only [isMatch_one_cons, Bool.and_eq_true] at hs ⊢
      exact ⟨hab c hs.1, ih s hs.2⟩
  | take t _ ih =>
    intro s hs
    cases t with
    | one b =>
      cases s with
      | nil => cases hs
      | cons c s =>
        simp only [isMatch_one_cons, Bool.and_eq_true] at hs
        exact isMatch_many_append [c] (ih s hs.2)
    | many =>
      obtain ⟨w, t, rfl, ht⟩ := isMatch_many_iff.1 hs
      exact isMatch_many_append w (ih t ht)
  | leave _ ih => exact fun s hs => isMatch_many_of [] (ih s hs)

/-! ## Short words -/

/-- The pattern cut in two at each place; a star is cut into two. -/
def splits : Pattern α → List (Pattern α × Pattern α)
  | [] => [([], [])]
  | .one a :: p => ([], .one a :: p) :: (splits p).map fun x => (.one a :: x.1, x.2)
  | .many :: p => ([.many], .many :: p) :: (splits p).map fun x => (.many :: x.1, x.2)

theorem length_splits (p : Pattern α) : (splits p).length = p.length + 1 := by
  induction p with
  | nil => rfl
  | cons t p ih => cases t <;> simp [splits, ih]

theorem isMatch_append_iff (p : Pattern α) : ∀ w s : List α,
    isMatch p (w ++ s) = true ↔ ∃ x ∈ splits p, isMatch x.1 w = true ∧ isMatch x.2 s = true := by
  induction p with
  | nil =>
    intro w s
    simp [splits, isMatch]
  | cons t p ih =>
    intro w s
    cases t with
    | one a =>
      simp only [splits, List.exists_mem_cons_iff, List.mem_map, exists_exists_and_eq_and]
      cases w with
      | nil => simp [isMatch]
      | cons c w =>
        simp only [List.cons_append, isMatch_one_cons, Bool.and_eq_true, ih w s, isMatch,
          List.isEmpty_cons, Bool.false_eq_true, false_and, false_or]
        constructor
        · rintro ⟨ha, x, hx, hw, hs⟩
          exact ⟨x, hx, ⟨ha, hw⟩, hs⟩
        · rintro ⟨x, hx, ⟨ha, hw⟩, hs⟩
          exact ⟨ha, x, hx, hw, hs⟩
    | many =>
      simp only [splits, List.exists_mem_cons_iff, List.mem_map, exists_exists_and_eq_and]
      constructor
      · intro h
        obtain ⟨u, t, hut, ht⟩ := isMatch_many_iff.1 h
        rcases List.append_eq_append_iff.1 hut with ⟨v, rfl, rfl⟩ | ⟨v, rfl, rfl⟩
        · exact .inl ⟨isMatch_many_iff.2 ⟨w, [], (List.append_nil w).symm, rfl⟩, isMatch_many_of v ht⟩
        · obtain ⟨x, hx, hv, hs⟩ := (ih v s).1 ht
          exact .inr ⟨x, hx, isMatch_many_of u hv, hs⟩
      · rintro (⟨-, hs⟩ | ⟨x, hx, hw, hs⟩)
        · exact isMatch_many_append w hs
        · obtain ⟨u, v, rfl, hv⟩ := isMatch_many_iff.1 hw
          rw [List.append_assoc]
          exact isMatch_many_of u ((ih v s).2 ⟨x, hx, hv, hs⟩)

/-- Whether a word matches the front of each cut. -/
def trace (ps : List (Pattern α)) (w : List α) : List Bool :=
  (ps.flatMap splits).map fun x => isMatch x.1 w

theorem isMatch_congr_of_trace {ps : List (Pattern α)} {w w' : List α} (h : trace ps w = trace ps w')
    {p : Pattern α} (hp : p ∈ ps) (s : List α) : isMatch p (w ++ s) = isMatch p (w' ++ s) := by
  rw [Bool.eq_iff_iff, isMatch_append_iff, isMatch_append_iff]
  refine exists_congr fun x => and_congr_right fun hx => and_congr_left fun _ => ?_
  rw [List.map_inj_left.1 h x (List.mem_flatMap.2 ⟨p, hp, hx⟩)]

/-- The number of places in the patterns. -/
def places : List (Pattern α) → Nat
  | [] => 0
  | p :: ps => p.length + 1 + places ps

theorem length_trace (ps : List (Pattern α)) (w : List α) : (trace ps w).length = places ps := by
  rw [trace, List.length_map]
  induction ps with
  | nil => rfl
  | cons p ps ih => rw [List.flatMap_cons, List.length_append, length_splits, ih, places]

/-- Two prefixes of a long word have the same trace. -/
theorem exists_trace_eq (ps : List (Pattern α)) {s : List α} (h : 2 ^ places ps ≤ s.length) :
    ∃ i j, i < j ∧ j ≤ s.length ∧ trace ps (s.take i) = trace ps (s.take j) := by
  let f : Fin (s.length + 1) → List.Vector Bool (places ps) := fun i =>
    ⟨trace ps (s.take i), length_trace ps _⟩
  have hcard : Fintype.card (List.Vector Bool (places ps)) < Fintype.card (Fin (s.length + 1)) := by
    rw [card_vector, Fintype.card_bool, Fintype.card_fin]
    omega
  obtain ⟨i, j, hne, hf⟩ := Fintype.exists_ne_map_eq_of_card_lt f hcard
  have htrace : trace ps (s.take i) = trace ps (s.take j) := congrArg Subtype.val hf
  rcases Nat.lt_or_gt_of_ne (Fin.val_ne_of_ne hne) with hlt | hlt
  · exact ⟨i, j, hlt, Nat.le_of_lt_succ j.isLt, htrace⟩
  · exact ⟨j, i, hlt, Nat.le_of_lt_succ i.isLt, htrace.symm⟩

/-- Every word has a short part that the same patterns match. -/
theorem exists_short (ps : List (Pattern α)) (s : List α) :
    ∃ t, t.Sublist s ∧ t.length < 2 ^ places ps ∧ ∀ p ∈ ps, isMatch p t = isMatch p s := by
  induction hn : s.length using Nat.strong_induction_on generalizing s with
  | _ n ih =>
    subst hn
    by_cases hshort : s.length < 2 ^ places ps
    · exact ⟨s, .refl s, hshort, fun _ _ => rfl⟩
    obtain ⟨i, j, hij, hj, htrace⟩ := exists_trace_eq ps (Nat.le_of_not_lt hshort)
    have hcut : (s.take i ++ s.drop j).Sublist s := by
      have h := (List.take_sublist i (s.take j)).append (.refl (s.drop j))
      rwa [List.take_take, Nat.min_eq_left hij.le, List.take_append_drop] at h
    have hlen : (s.take i ++ s.drop j).length < s.length := by
      rw [List.length_append, List.length_take, List.length_drop]
      omega
    obtain ⟨t, hsub, hlt, hsame⟩ := ih _ hlen _ rfl
    refine ⟨t, hsub.trans hcut, hlt, fun p hp => (hsame p hp).trans ?_⟩
    rw [isMatch_congr_of_trace htrace hp, List.take_append_drop]

/-! ## A stretch longer than the single letters -/

/-- The single letters of a pattern. -/
def ones : Pattern α → Nat
  | [] => 0
  | .one _ :: p => ones p + 1
  | .many :: p => ones p

theorem isMatch_absorb (p : Pattern α) :
    ∀ u w v, isMatch p (u ++ (w ++ v)) = true → ones p < w.length →
      ∃ w₁ w₂, w = w₁ ++ w₂ ∧ ∀ x, isMatch p (u ++ (w₁ ++ (x ++ (w₂ ++ v)))) = true := by
  induction p with
  | nil =>
    intro u w v h hw
    simp only [isMatch, List.isEmpty_iff, List.append_eq_nil_iff] at h
    simp [h.2.1] at hw
  | cons t p ih =>
    intro u w v h hw
    cases t with
    | one a =>
      simp only [ones] at hw
      cases u with
      | cons c u =>
        simp only [List.cons_append, isMatch_one_cons, Bool.and_eq_true] at h ⊢
        obtain ⟨w₁, w₂, hw', hx⟩ := ih u w v h.2 (by omega)
        exact ⟨w₁, w₂, hw', fun x => ⟨h.1, hx x⟩⟩
      | nil =>
        cases w with
        | nil => simp at hw
        | cons c w =>
          simp only [List.nil_append, List.cons_append, isMatch_one_cons, Bool.and_eq_true] at h
          obtain ⟨w₁, w₂, rfl, hx⟩ := ih [] w v h.2 (by simpa using hw)
          refine ⟨c :: w₁, w₂, rfl, fun x => ?_⟩
          simp only [List.nil_append, List.cons_append, isMatch_one_cons, Bool.and_eq_true]
          exact ⟨h.1, hx x⟩
    | many =>
      obtain ⟨z, y, hzy, hy⟩ := isMatch_many_iff.1 h
      -- the star ends in the stretch, behind it or before it
      rcases List.append_eq_append_iff.1 hzy with ⟨a, rfl, hrest⟩ | ⟨a, rfl, hrest⟩
      · rcases List.append_eq_append_iff.1 hrest with ⟨b, rfl, rfl⟩ | ⟨b, rfl, rfl⟩
        · refine ⟨w, [], by simp, fun x => ?_⟩
          have hstar := isMatch_many_of (u ++ (w ++ (x ++ b))) hy
          simpa only [List.append_assoc, List.nil_append] using hstar
        · refine ⟨a, b, rfl, fun x => ?_⟩
          have hstar := isMatch_many_of (u ++ (a ++ x)) hy
          simpa only [List.append_assoc] using hstar
      · obtain ⟨w₁, w₂, rfl, hx⟩ := ih a w v (by rw [← hrest]; exact hy) hw
        refine ⟨w₁, w₂, rfl, fun x => ?_⟩
        rw [List.append_assoc]
        exact isMatch_many_of _ (hx x)

/-! ## Words of a spare letter -/

section Probes

variable (letter : α → Prop) (spare : α) (bound : Nat)

/-- The letter is accepted by those tokens only that accept every letter. -/
def Spare (p : Pattern α) : Prop :=
  ∀ a, Token.one a ∈ p → a spare = true → ∀ c, letter c → a c = true

inductive Probe : Pattern α → List α → Prop
  | nil : Probe [] []
  | free {a : α → Bool} {p : Pattern α} {t : List α} (ha : a spare = true) (hp : Probe p t) :
      Probe (.one a :: p) (spare :: t)
  | fixed {a : α → Bool} {p : Pattern α} {t : List α} {c : α} (ha : a spare = false) (hl : letter c)
      (hc : a c = true) (hp : Probe p t) : Probe (.one a :: p) (c :: t)
  | many {p : Pattern α} {t : List α} {n : Nat} (hn : n ≤ bound) (hp : Probe p t) :
      Probe (.many :: p) (List.replicate n spare ++ t)

/-- What matches the probe matches the word, for the patterns the probes are meant for. -/
def Stands (t s : List α) : Prop :=
  ∀ p, Spare letter spare p → ones p < bound → isMatch p t = true → isMatch p s = true

variable {letter spare bound}

theorem Spare.tail {t : Token α} {p : Pattern α} (h : Spare letter spare (t :: p)) :
    Spare letter spare p :=
  fun a ha => h a (List.mem_cons_of_mem _ ha)

theorem Spare.nil : Spare letter spare [] :=
  fun _ ha => absurd ha List.not_mem_nil

theorem Spare.one {a : α → Bool} {p : Pattern α} (ha : a spare = true → ∀ c, letter c → a c = true)
    (hp : Spare letter spare p) : Spare letter spare (.one a :: p) := by
  intro b hb
  rcases List.mem_cons.1 hb with hb | hb
  · cases hb
    exact ha
  · exact hp b hb

theorem Spare.many {p : Pattern α} (hp : Spare letter spare p) :
    Spare letter spare (.many :: p) := by
  intro b hb
  rcases List.mem_cons.1 hb with hb | hb
  · cases hb
  · exact hp b hb

theorem Probe.isMatch {q : Pattern α} {t : List α} (h : Probe letter spare bound q t) :
    isMatch q t = true := by
  induction h with
  | nil => rfl
  | free ha _ ih => simp [ha, ih]
  | fixed _ _ hc _ ih => simp [hc, ih]
  | many _ _ ih => exact isMatch_many_of _ ih

theorem Probe.letters {q : Pattern α} {t : List α} (h : Probe letter spare bound q t)
    (hs : letter spare) : ∀ c ∈ t, letter c := by
  induction h with
  | nil => simp
  | free _ _ ih => simpa [hs] using ih
  | fixed _ hl _ _ ih => simpa [hl] using ih
  | many _ _ ih =>
    intro c hc
    rcases List.mem_append.1 hc with hc | hc
    · rw [List.eq_of_mem_replicate hc]
      exact hs
    · exact ih c hc

theorem Stands.cons {t s : List α} {d c : α} (hd : d = c ∨ d = spare) (hc : letter c)
    (h : Stands letter spare bound t s) : Stands letter spare bound (d :: t) (c :: s) := by
  intro p
  induction p with
  | nil => intro _ _ hm; cases hm
  | cons tok p ih =>
    intro hsp hn hm
    cases tok with
    | one a =>
      simp only [ones] at hn
      simp only [isMatch_one_cons, Bool.and_eq_true] at hm ⊢
      refine ⟨?_, h p hsp.tail (by omega) hm.2⟩
      rcases hd with rfl | rfl
      · exact hm.1
      · exact hsp a (by simp) hm.1 c hc
    | many =>
      rw [isMatch_many_cons, Bool.or_eq_true] at hm ⊢
      rcases hm with hm | hm
      · exact .inl (ih hsp.tail hn hm)
      · exact .inr (h _ hsp hn hm)

theorem Stands.replicate {t s : List α} (h : Stands letter spare bound t s) {w : List α}
    (hw : ∀ c ∈ w, letter c) :
    Stands letter spare bound (List.replicate w.length spare ++ t) (w ++ s) := by
  induction w with
  | nil => exact h
  | cons c w ih =>
    rw [List.length_cons, List.replicate_succ, List.cons_append, List.cons_append]
    exact (ih fun d hd => hw d (by simp [hd])).cons (.inr rfl) (hw c (by simp))

/-- Beyond the bound, a longer stretch of the spare letter makes no difference. -/
theorem Stands.stretch {t s : List α} (h : Stands letter spare bound t s) {w : List α}
    (hw : ∀ c ∈ w, letter c) (hlen : bound ≤ w.length) :
    Stands letter spare bound (List.replicate bound spare ++ t) (w ++ s) := by
  intro p hsp hn hm
  obtain ⟨w₁, w₂, hw', hx⟩ := isMatch_absorb p [] (List.replicate bound spare) t hm (by simpa using hn)
  have hlen' : bound = w₁.length + w₂.length := by
    have hl := congrArg List.length hw'
    simpa using hl
  have hall : w₁ ++ (List.replicate (w.length - bound) spare ++ w₂) = List.replicate w.length spare := by
    refine List.eq_replicate_iff.2 ⟨?_, fun c hc => ?_⟩
    · simp only [List.length_append, List.length_replicate]
      omega
    · have hmem : c ∈ List.replicate bound spare ∨ c ∈ List.replicate (w.length - bound) spare := by
        rw [hw', List.mem_append]
        simp only [List.mem_append] at hc
        tauto
      rcases hmem with hmem | hmem <;> exact List.eq_of_mem_replicate hmem
  have hlong := hx (List.replicate (w.length - bound) spare)
  rw [List.nil_append, ← List.append_assoc (List.replicate _ _), ← List.append_assoc w₁, hall] at hlong
  exact h.replicate hw p hsp hn hlong

theorem exists_probe {q : Pattern α} :
    ∀ {s : List α}, isMatch q s = true → (∀ c ∈ s, letter c) →
      ∃ t, Probe letter spare bound q t ∧ Stands letter spare bound t s := by
  induction q with
  | nil =>
    intro s hs _
    rw [List.isEmpty_iff.1 hs]
    exact ⟨[], .nil, fun _ _ _ hm => hm⟩
  | cons tok q ih =>
    intro s hs hl
    cases tok with
    | one a =>
      cases s with
      | nil => cases hs
      | cons c s =>
        simp only [isMatch_one_cons, Bool.and_eq_true] at hs
        obtain ⟨t, ht, hst⟩ := ih hs.2 fun d hd => hl d (by simp [hd])
        have hc := hl c (by simp)
        cases ha : a spare with
        | true => exact ⟨spare :: t, .free ha ht, hst.cons (.inr rfl) hc⟩
        | false => exact ⟨c :: t, .fixed ha hc hs.1 ht, hst.cons (.inl rfl) hc⟩
    | many =>
      obtain ⟨w, s, rfl, hrest⟩ := isMatch_many_iff.1 hs
      obtain ⟨t, ht, hst⟩ := ih hrest fun d hd => hl d (by simp [hd])
      have hw : ∀ c ∈ w, letter c := fun d hd => hl d (by simp [hd])
      rcases Nat.le_total w.length bound with hlen | hlen
      · exact ⟨_, .many hlen ht, hst.replicate hw⟩
      · exact ⟨_, .many le_rfl ht, hst.stretch hw hlen⟩

/-- The probes of a pattern decide whether a list of patterns matches all of its words. -/
theorem matched_iff_probes {ps : List (Pattern α)} {q : Pattern α} (hspare : letter spare)
    (hps : ∀ p ∈ ps, Spare letter spare p ∧ ones p < bound) :
    (∀ s, (∀ c ∈ s, letter c) → isMatch q s = true → ∃ p ∈ ps, isMatch p s = true) ↔
      ∀ t, Probe letter spare bound q t → ∃ p ∈ ps, isMatch p t = true := by
  constructor
  · intro h t ht
    exact h t (ht.letters hspare) ht.isMatch
  · intro h s hl hs
    obtain ⟨t, ht, hst⟩ := exists_probe hs hl
    obtain ⟨p, hp, hm⟩ := h t ht
    exact ⟨p, hp, hst p (hps p hp).1 (hps p hp).2 hm⟩

end Probes

end Wildcard
end Lib
end Ebftpd
