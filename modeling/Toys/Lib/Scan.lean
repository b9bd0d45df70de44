import Mathlib

namespace Toys.Lib

/-!
# Library — scanning a sorted list that changes

A list of entries, sorted by their keys, is enumerated through a cursor: the address of the
next entry, or `null` at the end.  In between, entries are inserted and erased; when the entry
at the cursor is erased the cursor is moved to the one after it.

* `Scan` — what was found, and what remains to be found;
* `Change`, `Scan.change` — one change of the list keeps the scan;
* `Scan.advance` — the next entry is found;
* `Scan.count_eq_one` — at the end, what was in the list all the time was found once.
-/

variable {κ α : Type*} {lt : κ → κ → Prop} {null : α}

/-- The address of the first entry, or `null`. -/
def firstAddress (null : α) : List (κ × α) → α
  | [] => null
  | x :: _ => x.2

/-- The entries are sorted, and have distinct addresses. -/
structure Entries (lt : κ → κ → Prop) (null : α) (es : List (κ × α)) : Prop where
  sorted : es.Pairwise fun x y => lt x.1 y.1
  nodup : (es.map Prod.snd).Nodup
  ne_null : ∀ x ∈ es, x.2 ≠ null

/-- The list changes from `es` to `es'` and the cursor from `c` to `c'`. -/
inductive Change (null : α) (es : List (κ × α)) (c : α) : List (κ × α) → α → Prop
  | kept : Change null es c es c
  | insert {b a : List (κ × α)} {x : κ × α} (h : es = b ++ a) : Change null es c (b ++ x :: a) c
  | erase {b a : List (κ × α)} {x : κ × α} (h : es = b ++ x :: a) (hne : c ≠ x.2) :
      Change null es c (b ++ a) c
  | skip {b a : List (κ × α)} {x : κ × α} (h : es = b ++ x :: a) (heq : c = x.2) :
      Change null es c (b ++ a) (firstAddress null a)

/-- The keys `found` were enumerated, and the cursor is at `c`; the keys in `kept` have been in
    the list all the time. -/
structure Scan (lt : κ → κ → Prop) (null : α) (es : List (κ × α)) (c : α) (found : List κ)
    (kept : κ → Prop) : Prop where
  sorted : found.Pairwise lt
  mem : ∀ x, kept x → x ∈ es.map Prod.fst
  split : ∃ before after, es = before ++ after ∧ c = firstAddress null after ∧
    (∀ x ∈ found, ∀ y ∈ after, lt x y.1) ∧ ∀ y ∈ before, kept y.1 → y.1 ∈ found

variable {es es' before after a b : List (κ × α)} {c c' : α} {x : κ × α} {found : List κ}
  {kept kept' : κ → Prop}

/-- An entry is at the cursor when it is the next one. -/
theorem Entries.firstAddress_eq (h : Entries lt null (before ++ after)) (hx : x ∈ before ++ after)
    (heq : firstAddress null after = x.2) : ∃ rest, after = x :: rest := by
  cases after with
  | nil => exact absurd heq.symm (h.ne_null x hx)
  | cons y rest =>
    have hy : y ∈ before ++ y :: rest := by simp
    obtain rfl : y = x := List.inj_on_of_nodup_map h.nodup hy hx heq
    exact ⟨rest, rfl⟩

/-- Nothing is found yet. -/
theorem Scan.start (hkept : ∀ x, kept x → x ∈ es.map Prod.fst) :
    Scan lt null es (firstAddress null es) [] kept where
  sorted := List.Pairwise.nil
  mem := hkept
  split := ⟨[], es, rfl, rfl, by simp, by simp⟩

/-- Less keys have been in the list all the time. -/
theorem Scan.mono (h : Scan lt null es c found kept) (hkept : ∀ x, kept' x → kept x) :
    Scan lt null es c found kept' where
  sorted := h.sorted
  mem := fun x hx => h.mem x (hkept x hx)
  split := by
    obtain ⟨before, after, heq, hc, hafter, hbefore⟩ := h.split
    exact ⟨before, after, heq, hc, hafter, fun y hy hkept' => hbefore y hy (hkept _ hkept')⟩

/-- A new key has not been in the list all the time. -/
theorem Entries.insert_not_kept [Std.Irrefl lt] (h : Entries lt null (b ++ x :: a))
    (hkept : ∀ y, kept y → y ∈ (b ++ a).map Prod.fst) : ¬ kept x.1 := by
  intro hx
  obtain ⟨y, hy, heq⟩ := List.mem_map.mp (hkept x.1 hx)
  have hsorted := h.sorted
  rw [List.pairwise_append, List.pairwise_cons] at hsorted
  obtain ⟨-, ⟨hright, -⟩, hleft⟩ := hsorted
  rcases List.mem_append.mp hy with hy | hy
  · have hlt := hleft y hy x List.mem_cons_self
    rw [heq] at hlt
    exact irrefl _ hlt
  · have hlt := hright y hy
    rw [heq] at hlt
    exact irrefl _ hlt

/-- An entry inserted ahead of the scan, or behind it, keeps the scan. -/
theorem Scan.insert [Std.Irrefl lt] [IsTrans κ lt] (h : Scan lt null (b ++ a) c found kept)
    (hes : Entries lt null (b ++ x :: a)) (hkept' : ∀ y, kept y → y ∈ (b ++ x :: a).map Prod.fst) :
    Scan lt null (b ++ x :: a) c found kept := by
  have hnew := hes.insert_not_kept h.mem
  obtain ⟨before, after, heq, hc, hafter, hbefore⟩ := h.split
  refine ⟨h.sorted, hkept', ?_⟩
  rcases List.append_eq_append_iff.mp heq with ⟨m, rfl, rfl⟩ | ⟨m, rfl, rfl⟩
  · -- before the cursor
    refine ⟨b ++ x :: m, after, by simp, hc, hafter, fun y hy hky => ?_⟩
    rcases List.mem_append.mp hy with hy | hy
    · exact hbefore y (List.mem_append_left _ hy) hky
    · rcases List.mem_cons.mp hy with rfl | hy
      · exact absurd hky hnew
      · exact hbefore y (List.mem_append_right _ hy) hky
  · cases m with
    | nil =>
      -- at the cursor, which stays at the next entry
      refine ⟨before ++ [x], a, by simp, hc, hafter, fun y hy hky => ?_⟩
      rcases List.mem_append.mp hy with hy | hy
      · exact hbefore y hy hky
      · rw [List.mem_singleton.mp hy] at hky
        exact absurd hky hnew
    | cons z m =>
      -- after the cursor
      refine ⟨before, z :: m ++ x :: a, by simp, hc, fun k hk y hy => ?_, hbefore⟩
      have hz := hafter k hk z (by simp)
      rcases List.mem_append.mp hy with hy | hy
      · exact hafter k hk y (List.mem_append_left _ hy)
      · rcases List.mem_cons.mp hy with rfl | hy
        · have hsorted := (List.pairwise_append.mp hes.sorted).2.2
          exact IsTrans.trans _ _ _ hz (hsorted z (by simp) y List.mem_cons_self)
        · exact hafter k hk y (List.mem_append_right _ hy)

/-- An entry that is removed keeps the scan, unless the scan is at it. -/
theorem Scan.erase (h : Scan lt null (b ++ x :: a) c found kept) (hne : c ≠ x.2)
    (hkept' : ∀ y, kept y → y ∈ (b ++ a).map Prod.fst) : Scan lt null (b ++ a) c found kept := by
  obtain ⟨before, after, heq, hc, hafter, hbefore⟩ := h.split
  refine ⟨h.sorted, hkept', ?_⟩
  rcases List.append_eq_append_iff.mp heq with ⟨m, rfl, hm⟩ | ⟨m, rfl, rfl⟩
  · cases m with
    | nil =>
      rw [List.nil_append] at hm
      rw [← hm] at hc
      exact absurd hc hne
    | cons z m =>
      -- before the cursor
      obtain ⟨rfl, rfl⟩ := List.cons.inj hm
      refine ⟨b ++ m, after, by simp, hc, hafter, fun y hy => hbefore y ?_⟩
      rcases List.mem_append.mp hy with hy | hy
      · exact List.mem_append_left _ hy
      · exact List.mem_append_right _ (List.mem_cons_of_mem _ hy)
  · cases m with
    | nil => exact absurd hc hne
    | cons z m =>
      -- after the cursor
      refine ⟨before, z :: m ++ a, by simp, hc, fun k hk y hy => hafter k hk y ?_, hbefore⟩
      rcases List.mem_append.mp hy with hy | hy
      · exact List.mem_append_left _ hy
      · exact List.mem_append_right _ (List.mem_cons_of_mem _ hy)

/-- The entry at the cursor is erased. -/
theorem Scan.skip (h : Scan lt null (b ++ x :: a) x.2 found kept)
    (hes : Entries lt null (b ++ x :: a)) (hkept' : ∀ y, kept y → y ∈ (b ++ a).map Prod.fst) :
    Scan lt null (b ++ a) (firstAddress null a) found kept := by
  obtain ⟨before, after, heq, hc, hafter, hbefore⟩ := h.split
  have hnodup := List.Nodup.of_map _ hes.nodup
  have hx : x ∈ before ++ after := heq ▸ List.mem_append_right _ List.mem_cons_self
  rw [heq] at hes
  obtain ⟨rest, rfl⟩ := hes.firstAddress_eq hx hc.symm
  -- the two splits are the same
  obtain ⟨rfl, rfl⟩ : b = before ∧ a = rest := by
    have hmiddle := List.nodup_middle.mp hnodup
    rw [List.nodup_cons, List.mem_append, not_or] at hmiddle
    rw [heq] at hnodup
    have hmiddle' := List.nodup_middle.mp hnodup
    rw [List.nodup_cons, List.mem_append, not_or] at hmiddle'
    obtain ⟨hb, -, ha⟩ := (List.append_cons_inj_of_notMem hmiddle.1.1 hmiddle.1.2).mp heq
    exact ⟨hb, ha⟩
  exact ⟨h.sorted, hkept', b, a, rfl, rfl, fun k hk y hy => hafter k hk y (List.mem_cons_of_mem _ hy),
    hbefore⟩

/-- A change of the list keeps the scan. -/
theorem Scan.change [Std.Irrefl lt] [IsTrans κ lt] (h : Scan lt null es c found kept)
    (hes : Entries lt null es) (hes' : Entries lt null es') (hchange : Change null es c es' c')
    (hkept : ∀ y, kept' y → kept y) (hkept' : ∀ y, kept' y → y ∈ es'.map Prod.fst) :
    Scan lt null es' c' found kept' := by
  have hmono := h.mono hkept
  cases hchange with
  | kept => exact hmono
  | insert heq =>
    subst heq
    exact hmono.insert hes' hkept'
  | erase heq hne =>
    subst heq
    exact hmono.erase hne hkept'
  | skip heq hc =>
    subst heq
    subst hc
    exact hmono.skip hes hkept'

/-- The next entry is found. -/
theorem Scan.advance (h : Scan lt null es c found kept) (hes : Entries lt null es) (hx : x ∈ es)
    (hc : c = x.2) : ∃ b a, es = b ++ x :: a ∧
      Scan lt null es (firstAddress null a) (found ++ [x.1]) kept := by
  obtain ⟨before, after, rfl, hfirst, hafter, hbefore⟩ := h.split
  obtain ⟨rest, rfl⟩ := hes.firstAddress_eq hx (hfirst.symm.trans hc)
  have hsorted := hes.sorted
  rw [List.pairwise_append, List.pairwise_cons] at hsorted
  obtain ⟨-, ⟨hright, -⟩, -⟩ := hsorted
  refine ⟨before, rest, rfl, ?_, h.mem, before ++ [x], rest, by simp, rfl, fun k hk y hy => ?_,
    fun y hy hky => ?_⟩
  · refine List.pairwise_append.mpr ⟨h.sorted, List.pairwise_singleton _ _, fun k hk y hy => ?_⟩
    rw [List.mem_singleton.mp hy]
    exact hafter k hk x List.mem_cons_self
  · rcases List.mem_append.mp hk with hk | hk
    · exact hafter k hk y (List.mem_cons_of_mem _ hy)
    · rw [List.mem_singleton.mp hk]
      exact hright y hy
  · rcases List.mem_append.mp hy with hy | hy
    · exact List.mem_append_left _ (hbefore y hy hky)
    · rw [List.mem_singleton.mp hy]
      exact List.mem_append_right _ (List.mem_singleton_self _)

/-- The entry at a cursor that is not at the end. -/
theorem Scan.exists_entry (h : Scan lt null es c found kept) (hc : c ≠ null) : ∃ x ∈ es, c = x.2 := by
  obtain ⟨before, after, rfl, hfirst, -, -⟩ := h.split
  cases after with
  | nil => exact absurd hfirst hc
  | cons x after => exact ⟨x, by simp, hfirst⟩

/-- At the end, a key that has been in the list all the time was found once. -/
theorem Scan.count_eq_one [BEq κ] [LawfulBEq κ] [Std.Irrefl lt] (h : Scan lt null es null found kept)
    (hes : Entries lt null es) {k : κ} (hk : kept k) : found.count k = 1 := by
  obtain ⟨before, after, rfl, hfirst, -, hbefore⟩ := h.split
  have hnodup : found.Nodup := by
    refine h.sorted.imp ?_
    rintro x y hlt rfl
    exact irrefl _ hlt
  cases after with
  | nil =>
    obtain ⟨y, hy, rfl⟩ := List.mem_map.mp (h.mem k hk)
    rw [List.append_nil] at hy
    exact List.count_eq_one_of_mem hnodup (hbefore y hy hk)
  | cons x after => exact absurd hfirst.symm (hes.ne_null x (by simp))

end Toys.Lib
