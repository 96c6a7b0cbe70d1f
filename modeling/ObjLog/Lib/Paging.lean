import ObjLog.Lib.Tiling
/-!
# Collecting one page of a list

A collector takes elements one by one. It ignores what lies before its start,
keeps at most `limit` elements, and remembers the position of the first one it
had no room for. Collecting a list gives a `take` of what passes, and resuming
from the remembered position gives the rest.
-/

namespace ObjLog.Lib

/-- `pos` is where to resume; `none` while nothing was turned away. -/
structure Collector (α : Type) where
  kept : List α
  resume : Option α

namespace Collector

variable {α : Type} (p : α → Bool) (limit : Nat)

def add (c : Collector α) (a : α) : Collector α :=
  if c.resume.isSome ∨ p a = false then c
  else if c.kept.length = limit then { c with resume := some a }
  else { c with kept := c.kept ++ [a] }

def collect (l : List α) : Collector α := l.foldl (add p limit) ⟨[], none⟩

variable {p limit}

theorem add_done {c : Collector α} (h : c.resume.isSome = true) (a : α) : add p limit c a = c := by
  simp [add, h]

theorem foldl_done {c : Collector α} (h : c.resume.isSome = true) (l : List α) : l.foldl (add p limit) c = c := by
  induction l with
  | nil => rfl
  | cons a l ih => rw [List.foldl_cons, add_done h, ih]

/-- From a collector with room, folding keeps the next elements that pass. -/
theorem foldl_add (l : List α) (kept : List α) (h : kept.length ≤ limit) : l.foldl (add p limit) ⟨kept, none⟩ =
      ⟨kept ++ (l.filter p).take (limit - kept.length), (l.filter p)[limit - kept.length]?⟩ := by
  induction l generalizing kept with
  | nil => simp
  | cons a l ih =>
    rw [List.foldl_cons]
    by_cases hp : p a = true
    · rw [List.filter_cons_of_pos hp]
      by_cases hfull : kept.length = limit
      · -- no room: the collector stops here
        have hadd : add p limit ⟨kept, none⟩ a = ⟨kept, some a⟩ := by simp [add, hp, hfull]
        rw [hadd, foldl_done rfl, hfull]
        simp
      · have hadd : add p limit ⟨kept, none⟩ a = ⟨kept ++ [a], none⟩ := by simp [add, hp, hfull]
        have hroom : limit - kept.length = (limit - (kept ++ [a]).length) + 1 := by simp; omega
        rw [hadd, ih (kept ++ [a]) (by simp; omega), hroom]
        simp
    · have hadd : add p limit ⟨kept, none⟩ a = ⟨kept, none⟩ := by simp [add, hp]
      rw [hadd, ih kept h, List.filter_cons_of_neg hp]

theorem collect_eq (l : List α) : collect p limit l = ⟨(l.filter p).take limit, (l.filter p)[limit]?⟩ := by
  unfold collect
  rw [foldl_add l [] (Nat.zero_le _)]
  simp

end Collector

/-! ## Page after page -/

variable {α β κ ι : Type}

/-- Ask `list` for one page after another, the `i`-th with `limits i`, each from where the last one says to go
on. The result is every page with its start; `none` when a request fails or `fuel` runs out first. -/
def readPages (list : κ → ι → Option (List β × Option κ)) (limits : Nat → ι) : Nat → Nat → κ → Option (List (κ × List β))
  | 0, _, _ => none
  | fuel + 1, i, k =>
    match list k (limits i) with
    | none => none
    | some (page, none) => some [(k, page)]
    | some (page, some next) => ((k, page) :: ·) <$> readPages list limits fuel (i + 1) next

/-- Each request lists a page of `l`: at most `size n` elements that end at `pos k` or later, and the start of
the first one left out. -/
structure Lists (list : κ → ι → Option (List β × Option κ)) (hi : α → Nat) (pos : κ → Nat) (start : α → κ) (f : α → β)
    (size : ι → Nat) (l : List α) : Prop where
  size_pos : ∀ n, 0 < size n
  page : ∀ k n, list k n = some (((l.filter fun y => decide (pos k ≤ hi y)).take (size n)).map f,
    (l.filter fun y => decide (pos k ≤ hi y))[size n]?.map start)

/-- The pages together are everything from the start on, each page starts right of the one before, and one
more request than there are elements is enough. -/
theorem readPages_eq {lo hi : α → Nat} {a b : Nat} {l : List α} (h : Tiles lo hi a b l)
    {list : κ → ι → Option (List β × Option κ)} {pos : κ → Nat} {start : α → κ} {f : α → β} {size : ι → Nat}
    (hlist : Lists list hi pos start f size l) (hstart : ∀ x, pos (start x) = lo x) (limits : Nat → ι) (fuel i : Nat)
    (k : κ) (hf : (l.filter fun y => decide (pos k ≤ hi y)).length < fuel) :
    ∃ run, readPages list limits fuel i k = some run ∧ (∀ r ∈ run.head?, r.1 = k) ∧
      run.IsChain (fun r s => pos r.1 < pos s.1) ∧
      run.flatMap (·.2) = (l.filter fun y => decide (pos k ≤ hi y)).map f := by
  induction fuel generalizing i k with
  | zero => omega
  | succ fuel ih =>
    have hpage := hlist.page k (limits i)
    cases hx : (l.filter fun y => decide (pos k ≤ hi y))[size (limits i)]? with
    | none =>
      rw [hx, List.take_of_length_le (List.getElem?_eq_none_iff.1 hx)] at hpage
      exact ⟨[(k, _)], by rw [readPages, hpage]; rfl, by simp, by simp, by simp⟩
    | some x =>
      rw [hx] at hpage
      have hpos := hlist.size_pos (limits i)
      obtain ⟨hlt, hrest⟩ := h.resume hpos hx
      have hlen := (List.getElem?_eq_some_iff.1 hx).1
      rw [← hstart] at hlt hrest
      obtain ⟨run, hrun, hhead, hchain, hflat⟩ :=
        ih (i + 1) (start x) (by rw [hrest, List.length_drop]; omega)
      have hfirst : readPages list limits (fuel + 1) i k =
          some ((k, ((l.filter fun y => decide (pos k ≤ hi y)).take (size (limits i))).map f) :: run) := by
        rw [readPages, hpage]
        change Option.map _ (readPages list limits fuel (i + 1) (start x)) = _
        rw [hrun]
        rfl
      refine ⟨_, hfirst, by simp, ?_, ?_⟩
      · refine List.isChain_cons.2 ⟨fun r hr => ?_, hchain⟩
        rw [hhead r hr]
        exact hlt
      · rw [List.flatMap_cons, hflat, hrest, ← List.map_append, List.take_append_drop]

end ObjLog.Lib
