import ObjLog.Lib.Text
/-!
# Slash-separated paths

`path.Clean` and `path.Join` of Go. Plain names at the end of a joined path stay as they
are after a part that depends on the rest only (`pathJoin_plain`).
-/

namespace ObjLog.Lib

/-- One element on top of those already cleaned, the newest first. -/
def cleanStep (rooted : Bool) (out : List (List Char)) (elem : List Char) : List (List Char) :=
  if elem = [] ∨ elem = ['.'] then out
  else if elem = ['.', '.'] then
    match out with
    | top :: rest => if top = ['.', '.'] then elem :: out else rest
    | [] => if rooted then [] else [elem]
  else elem :: out

def isRooted (path : List Char) : Bool := path.head? == some '/'

/-- The elements `path.Clean` keeps, the last first. -/
def cleanElems (path : List Char) : List (List Char) := (splitSlashes path).foldl (cleanStep (isRooted path)) []

/-- `path.Clean`. -/
def pathClean (path : List Char) : List Char :=
  let body := ['/'].intercalate (cleanElems path).reverse
  if isRooted path then '/' :: body else if body = [] then ['.'] else body

/-- `path.Join`: leading empty elements are left out. -/
def pathJoin (elems : List String) : String :=
  match elems.dropWhile (· = "") with
  | [] => ""
  | elems => String.ofList (pathClean (['/'].intercalate (elems.map String.toList)))

/-- A name that cleaning leaves alone. -/
structure PlainName (name : String) : Prop where
  noSlash : '/' ∉ name.toList
  kept : name.toList ∉ [[], ['.'], ['.', '.']]

theorem splitSlashes_plain {cs : List Char} (h : '/' ∉ cs) : splitSlashes cs = [cs] := by
  induction cs with
  | nil => rfl
  | cons c cs ih =>
    have hne : c ≠ '/' := fun hc => h (hc ▸ List.mem_cons_self)
    rw [splitSlashes, ih fun hm => h (List.mem_cons_of_mem _ hm)]
    exact fun hc => hne hc

theorem splitSlashes_ne_nil (cs : List Char) : splitSlashes cs ≠ [] := by
  unfold splitSlashes
  split
  · simp
  · simp
  · split <;> simp

theorem splitSlashes_append (xs ys : List Char) : splitSlashes (xs ++ '/' :: ys) = splitSlashes xs ++ splitSlashes ys := by
  induction xs with
  | nil => rfl
  | cons c cs ih =>
    by_cases hc : c = '/'
    · subst hc
      simp [splitSlashes, ih]
    · rw [List.cons_append, splitSlashes, ih, splitSlashes]
      · cases h : splitSlashes cs with
        | nil => exact absurd h (splitSlashes_ne_nil cs)
        | cons first rest => rfl
      · exact hc
      · exact hc

theorem splitSlashes_two {a b : List Char} (ha : '/' ∉ a) (hb : '/' ∉ b) : splitSlashes (a ++ '/' :: b) = [a, b] := by
  rw [splitSlashes_append, splitSlashes_plain ha, splitSlashes_plain hb]
  rfl

theorem cleanStep_plain {name : String} (h : PlainName name) (rooted : Bool) (out : List (List Char)) :
    cleanStep rooted out name.toList = name.toList :: out := by
  have hkept := h.kept
  simp only [List.mem_cons, List.not_mem_nil, or_false, not_or] at hkept
  simp [cleanStep, hkept]

theorem intercalate_snoc (sep : List Char) (xs : List (List Char)) (x : List Char) :
    sep.intercalate (xs ++ [x]) = (xs.flatMap (· ++ sep)) ++ x := by
  induction xs with
  | nil => simp
  | cons y ys ih =>
    cases ys with
    | nil => simp [List.intercalate]
    | cons z zs => simp_all [List.intercalate]

/-- Two plain names at the end, after what the first element leaves. -/
theorem pathJoin_plain (root : String) :
    ∃ base, ∀ a b, PlainName a → PlainName b → (pathJoin [root, a, b]).toList = base ++ (a.toList ++ '/' :: b.toList) := by
  refine ⟨(if isRooted root.toList then ['/'] else []) ++ (cleanElems root.toList).reverse.flatMap (· ++ ['/']),
    fun a b ha hb => ?_⟩
  -- what is left of a path whose cleaned elements end with the two names
  have hclean : ∀ path, isRooted path = isRooted root.toList →
      cleanElems path = b.toList :: a.toList :: cleanElems root.toList →
      pathClean path = (if isRooted root.toList then ['/'] else []) ++
        (cleanElems root.toList).reverse.flatMap (· ++ ['/']) ++ (a.toList ++ '/' :: b.toList) := by
    intro path hroot helems
    rw [pathClean, helems, List.reverse_cons, intercalate_snoc, List.reverse_cons, List.flatMap_append, hroot]
    split <;> simp
  have hsplit := splitSlashes_two ha.noSlash hb.noSlash
  have hne : a ≠ "" := fun h => ha.kept (by simp [h])
  obtain ⟨c, cs, hcs⟩ := List.exists_cons_of_ne_nil fun h => hne (String.toList_eq_nil_iff.1 h)
  by_cases hr : root = ""
  · have hhead : isRooted (a.toList ++ '/' :: b.toList) = false := by
      have hc : c ≠ '/' := fun h => ha.noSlash (hcs ▸ h ▸ List.mem_cons_self)
      simp [isRooted, hcs, hc]
    rw [pathJoin, hr, List.dropWhile_cons_of_pos (by simp), List.dropWhile_cons_of_neg (by simpa using hne)]
    have hpath : ['/'].intercalate ([a, b].map String.toList) = a.toList ++ '/' :: b.toList := by simp [List.intercalate]
    have hempty : cleanElems root.toList = [] := by rw [hr]; rfl
    rw [← hr, String.toList_ofList, hpath]
    refine hclean _ (hhead.trans (by rw [hr]; rfl)) ?_
    rw [cleanElems, hsplit, hempty]
    simp [cleanStep_plain ha, cleanStep_plain hb]
  · obtain ⟨d, ds, hds⟩ := List.exists_cons_of_ne_nil fun h => hr (String.toList_eq_nil_iff.1 h)
    have hroot : isRooted (root.toList ++ '/' :: (a.toList ++ '/' :: b.toList)) = isRooted root.toList := by
      simp [isRooted, hds]
    rw [pathJoin, List.dropWhile_cons_of_neg (by simpa using hr)]
    rw [String.toList_ofList]
    have hpath : ['/'].intercalate ([root, a, b].map String.toList) = root.toList ++ '/' :: (a.toList ++ '/' :: b.toList) := by
      simp [List.intercalate]
    rw [hpath]
    refine hclean _ hroot ?_
    rw [cleanElems, splitSlashes_append, hsplit, hroot, List.foldl_append]
    simp [cleanStep_plain ha, cleanStep_plain hb, cleanElems]

theorem pathJoin_inj {root a b c d : String} (ha : PlainName a) (hb : PlainName b) (hc : PlainName c) (hd : PlainName d)
    (h : pathJoin [root, a, b] = pathJoin [root, c, d]) : a = c ∧ b = d := by
  obtain ⟨base, hbase⟩ := pathJoin_plain root
  have hchars := congrArg String.toList h
  rw [hbase a b ha hb, hbase c d hc hd] at hchars
  have hsplit := congrArg splitSlashes (List.append_cancel_left hchars)
  rw [splitSlashes_two ha.noSlash hb.noSlash, splitSlashes_two hc.noSlash hd.noSlash] at hsplit
  simpa [String.toList_inj] using hsplit

end ObjLog.Lib
