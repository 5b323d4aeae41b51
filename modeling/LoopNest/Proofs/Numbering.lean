import LoopNest.Proofs.Logarithm
import LoopNest.Tensor
import LoopNest.Text.Lines

/-!
# Numbered lines

The numbers in front of the lines of a text are as wide as the number of lines is, so that cutting the
numbers off gives the text back. Their width is computed from a logarithm. At a power of ten it must not
come out below a whole number, and next to one it must not come out on the other side: the powers of
ten are evaluated, and the error of the logarithm is less than what it needs to reach one from
elsewhere. The lines are held in an array, which can hold as many as `holdsElements` says, like the
arrays of tensors.
-/

namespace LoopNest.Text

/-! ## The width -/

theorem length_toString {n k : Nat} (hlow : 10 ^ k ≤ n) (hhigh : n < 10 ^ (k + 1)) :
    (toString n).length = k + 1 := by
  have hle : (toString n).length ≤ k + 1 := (Nat.length_repr_le_iff k.succ_pos).mpr hhigh
  have hpos : 0 < (toString n).length := Nat.length_repr_pos
  rcases Nat.eq_zero_or_pos k with rfl | hk
  · omega
  · have hlt : ¬ (toString n).length ≤ k := (Nat.length_repr_le_iff hk).not.mpr hlow.not_gt
    omega

theorem length_toString_mono {m n : Nat} (h : m ≤ n) :
    (toString m).length ≤ (toString n).length := by
  have hpos : 0 < (toString n).length := Nat.length_repr_pos
  exact (Nat.length_repr_le_iff hpos).mpr
    (h.trans_lt ((Nat.length_repr_le_iff hpos).mp (Nat.le_refl _)))

/-- The numbers of lines so near to a power of ten that the error of the logarithm could matter. -/
def nearPowers : List Nat :=
  (List.range 14).map (10 ^ ·) ++ [10 ^ 13 - 2, 10 ^ 13 - 1, 10 ^ 13 + 1, 10 ^ 13 + 2]

theorem numberWidth_nearPowers : ∀ n ∈ nearPowers, numberWidth n = (toString n).length := by
  decide +kernel

theorem margin_of_not_mem_nearPowers {n k : Nat} (hn : n ≤ 2 ^ 44) (hlow : 10 ^ k ≤ n)
    (hhigh : n < 10 ^ (k + 1)) (hspecial : n ∉ nearPowers) :
    10 ^ k * 10000000000003 ≤ n * 10 ^ 13 ∧ n * 10 ^ 13 ≤ 10 ^ (k + 1) * 9999999999997 := by
  have hk : k < 14 := by
    have hpow : 10 ^ k < 10 ^ 14 := hlow.trans_lt (hn.trans_lt (by norm_num))
    exact (Nat.pow_lt_pow_iff_right (by decide)).mp hpow
  have hpower : n ≠ 10 ^ k := fun h => hspecial (by simp [nearPowers, h, hk])
  have hoff : ∀ d ∈ [10 ^ 13 - 2, 10 ^ 13 - 1, 10 ^ 13 + 1, 10 ^ 13 + 2], n ≠ d := fun d hd h =>
    hspecial (List.mem_append_right _ (h ▸ hd))
  simp only [List.forall_mem_cons, List.not_mem_nil, false_imp_iff, implies_true] at hoff
  have hcases : 10 ^ k * 30 ≤ 10 ^ 13 ∨ k = 12 ∨ k = 13 := by
    rcases Nat.lt_or_ge k 12 with hsmall | hlarge
    · exact .inl ((Nat.mul_le_mul_right 30 (Nat.pow_le_pow_right (by decide)
        (Nat.le_of_lt_succ hsmall))).trans (by decide : 10 ^ 11 * 30 ≤ 10 ^ 13))
    · omega
  -- Only next to the power of thirteen does the margin keep out more than the power itself.
  rw [pow_succ 10 k] at hhigh ⊢
  rcases hcases with hmargin | rfl | rfl
  · clear hoff
    generalize 10 ^ k = p at *
    omega
  all_goals
    norm_num at hpower hoff hlow hhigh ⊢
    omega

/-- The width of the line numbers is that of the number of lines. -/
theorem numberWidth_eq {n : Nat} (h0 : 0 < n) (hn : n ≤ 2 ^ 44) :
    numberWidth n = (toString n).length := by
  by_cases hspecial : n ∈ nearPowers
  · exact numberWidth_nearPowers n hspecial
  · have hlow := Nat.pow_log_le_self 10 h0.ne'
    have hhigh := Nat.lt_pow_succ_log_self (by decide : 1 < 10) n
    obtain ⟨hlow', hhigh'⟩ := margin_of_not_mem_nearPowers hn hlow hhigh hspecial
    rw [numberWidth, Logarithm.toNat_decimal hn hlow' hhigh', length_toString hlow hhigh]

-- With more lines than an array can hold, the logarithm would reach the power of ten too early.
example : numberWidth 999999999999999 = 16 := by decide +kernel

/-! ## Lines -/

/-- Lines as a text is cut into them: each ends with its only line feed, but the last may have none. -/
inductive AreLines : List String → Prop
  | nil : AreLines []
  | last {l : String} : l ≠ "" → '\n' ∉ l.toList → AreLines [l]
  | cons {l : String} {ls : List String} : '\n' ∉ l.toList → AreLines ls → AreLines ((l ++ "\n") :: ls)

theorem keptLinesFrom_nil (line : List Char) :
    keptLinesFrom line [] = if line.isEmpty then [] else [line.reverse] :=
  rfl

theorem keptLinesFrom_newline (line cs : List Char) :
    keptLinesFrom line ('\n' :: cs) = ('\n' :: line).reverse :: keptLinesFrom [] cs :=
  rfl

theorem keptLinesFrom_append {cs : List Char} (h : '\n' ∉ cs) (line rest : List Char) :
    keptLinesFrom line (cs ++ rest) = keptLinesFrom (cs.reverse ++ line) rest := by
  induction cs generalizing line with
  | nil => rfl
  | cons c cs ih =>
    rw [List.mem_cons, not_or] at h
    rw [List.cons_append, keptLinesFrom, ih h.2, List.reverse_cons, List.append_assoc]
    · rfl
    · exact Ne.symm h.1

theorem areLines_keptLinesFrom {line : List Char} (h : '\n' ∉ line) (cs : List Char) :
    AreLines ((keptLinesFrom line cs).map String.ofList) := by
  fun_induction keptLinesFrom line cs with
  | case1 line hempty => exact .nil
  | case2 line hempty =>
    have hne : String.ofList line.reverse ≠ "" := by simpa using hempty
    exact .last hne (by simpa using h)
  | case3 line cs ih =>
    have hline : String.ofList ('\n' :: line).reverse = String.ofList line.reverse ++ "\n" := by
      rw [List.reverse_cons, String.ofList_append]
    rw [List.map_cons, hline]
    exact .cons (by simpa using h) (ih List.not_mem_nil)
  | case4 line c cs hc ih => exact ih (by simp [h, Ne.symm hc])

theorem flatten_keptLinesFrom (line cs : List Char) :
    (keptLinesFrom line cs).flatten = line.reverse ++ cs := by
  fun_induction keptLinesFrom line cs with
  | case1 line hempty => simpa using hempty
  | case2 line hempty => simp
  | case3 line cs ih => simp [ih]
  | case4 line c cs hc ih => simp [ih]

theorem areLines_keptLines (s : String) : AreLines (keptLines s) :=
  areLines_keptLinesFrom List.not_mem_nil s.toList

theorem join_keptLines (s : String) : String.join (keptLines s) = s := by
  rw [← String.toList_inj, String.toList_join, keptLines, List.flatMap_map]
  simpa [List.flatMap_id'] using flatten_keptLinesFrom [] s.toList

/-- Lines are what the text that they make up is cut into. -/
theorem keptLines_join {ls : List String} (h : AreLines ls) : keptLines (String.join ls) = ls := by
  induction h with
  | nil => rfl
  | @last l hne hl =>
    have hcut : keptLinesFrom [] l.toList = [l.toList] := by
      rw [← List.append_nil l.toList, keptLinesFrom_append hl, keptLinesFrom_nil]
      simpa using hne
    simp [keptLines, hcut]
  | @cons l ls hl hls ih =>
    have hcut : keptLinesFrom [] (l.toList ++ '\n' :: (String.join ls).toList) =
        (l.toList ++ ['\n']) :: keptLinesFrom [] (String.join ls).toList := by
      rw [keptLinesFrom_append hl, keptLinesFrom_newline]
      simp
    have hjoin : (String.join ((l ++ "\n") :: ls)).toList =
        l.toList ++ '\n' :: (String.join ls).toList := by
      simp [String.toList_join]
    rw [keptLines, hjoin, hcut, List.map_cons, String.ofList_append, String.ofList_toList]
    exact congrArg _ ih

/-! ## Numbers -/

theorem toList_pushn (s : String) (c : Char) (n : Nat) :
    (s.pushn c n).toList = s.toList ++ List.replicate n c := by
  induction n with
  | zero => simp [String.pushn, Nat.repeat]
  | succ n ih =>
    rw [String.pushn, Nat.repeat, String.toList_push, List.replicate_succ', ← List.append_assoc, ← ih]
    rfl

theorem length_padded {width n : Nat} (h : (toString n).length ≤ width) :
    (padded width n).length = width := by
  rw [padded, String.length_append, String.length_pushn, String.length_empty]
  omega

theorem lineFeed_not_mem_padded (width n : Nat) : '\n' ∉ (padded width n).toList := by
  intro h
  rw [padded, String.toList_append, toList_pushn, List.mem_append, String.toList_empty,
    List.nil_append] at h
  rcases h with hzero | hdigit
  · exact absurd (List.eq_of_mem_replicate hzero) (by decide)
  · have hdigit : '\n' ∈ Nat.toDigits 10 n := Nat.toList_repr ▸ hdigit
    exact absurd (Nat.isDigit_of_mem_toDigits (by decide) (by decide) hdigit) (by decide)

theorem numberFrom_nil (width i : Nat) : numberFrom width i [] = [] := rfl

theorem numberFrom_cons (width i : Nat) (l : String) (ls : List String) :
    numberFrom width i (l :: ls) = (padded width i ++ " " ++ l) :: numberFrom width (i + 1) ls :=
  rfl

theorem length_numberFrom (width i : Nat) (ls : List String) :
    (numberFrom width i ls).length = ls.length := by
  induction ls generalizing i with
  | nil => rfl
  | cons l ls ih => simp [numberFrom_cons, ih]

theorem getElem?_numberFrom (width i : Nat) (ls : List String) (j : Nat) :
    (numberFrom width i ls)[j]? = ls[j]?.map (padded width (i + j) ++ " " ++ ·) := by
  induction ls generalizing i j with
  | nil => rfl
  | cons l ls ih =>
    cases j with
    | zero => rfl
    | succ j => simp [numberFrom_cons, ih, Nat.add_right_comm, Nat.add_assoc]

theorem lineFeed_not_mem_numbered {l : String} (h : '\n' ∉ l.toList) (width i : Nat) :
    '\n' ∉ (padded width i ++ " " ++ l).toList := by
  simp [h, lineFeed_not_mem_padded]

/-- Numbers do not end a line. -/
theorem areLines_numberFrom {ls : List String} (h : AreLines ls) (width i : Nat) :
    AreLines (numberFrom width i ls) := by
  induction h generalizing i with
  | nil => exact .nil
  | @last l hne hl =>
    refine .last (fun h => ?_) (lineFeed_not_mem_numbered hl width i)
    simpa using congrArg String.length h
  | @cons l ls hl hls ih =>
    rw [numberFrom_cons, ← String.append_assoc]
    exact .cons (lineFeed_not_mem_numbered hl width i) (ih (i + 1))

/-- Cutting off numbers of one width leaves the lines. -/
theorem map_drop_numberFrom {width i : Nat} {ls : List String}
    (h : ∀ n < i + ls.length, (toString n).length ≤ width) :
    (numberFrom width i ls).map (fun l => String.ofList (l.toList.drop (width + 1))) = ls := by
  induction ls generalizing i with
  | nil => rfl
  | cons l ls ih =>
    rw [List.length_cons] at h
    have hlength := length_padded (h i (by omega))
    have hdrop : (padded width i ++ " " ++ l).toList.drop (width + 1) = l.toList := by
      rw [String.toList_append]
      refine List.drop_left' ?_
      rw [String.toList_append, List.length_append, String.length_toList, hlength]
      rfl
    rw [numberFrom_cons, List.map_cons, hdrop, String.ofList_toList, ih fun n hn => h n (by omega)]

/-- Numbering puts in front of each line its number, with zeros to the width of the number of lines, and
a space; cutting so much off every line gives the text back. There are as many lines as an array can
hold with sixteen bytes for each, the limit that `Tensor.zeros` sets to elements of eight bytes. -/
theorem number_aligned (s : String) (h : holdsElements 16 (keptLines s).length) :
    let ls := keptLines s
    let ns := keptLines (number s)
    let width := (toString ls.length).length
    (AreLines ls ∧ String.join ls = s) ∧ (AreLines ns ∧ String.join ns = number s) ∧
      ns.length = ls.length ∧
      (∀ i l, ls[i]? = some l → ∃ zeros, zeros + (toString (i + 1)).length = width ∧
        ns[i]? = some ("".pushn '0' zeros ++ toString (i + 1) ++ " " ++ l)) ∧
      String.join (ns.map fun l => String.ofList (l.toList.drop (width + 1))) = s := by
  intro ls ns width
  have hls : AreLines ls := areLines_keptLines s
  have hcount : ls.length ≤ 2 ^ 44 := by
    rw [holdsElements, Bool.and_eq_true, decide_eq_true_eq, decide_eq_true_eq, arrayBytes] at h
    exact (by omega : (keptLines s).length ≤ 2 ^ 44)
  have hns : ns = numberFrom (numberWidth ls.length) 1 ls :=
    keptLines_join (areLines_numberFrom hls _ 1)
  have hfits : ∀ n < 1 + ls.length, (toString n).length ≤ width := fun n hn =>
    length_toString_mono (by omega)
  have hwidth : ∀ l ∈ ls, numberWidth ls.length = width := fun l hl =>
    numberWidth_eq (List.length_pos_of_mem hl) hcount
  refine ⟨⟨hls, join_keptLines s⟩, ⟨areLines_keptLines _, join_keptLines _⟩, ?_, ?_, ?_⟩
  · rw [hns, length_numberFrom]
  · intro i l hl
    have hi := (List.getElem?_eq_some_iff.mp hl).1
    refine ⟨width - (toString (i + 1)).length, Nat.sub_add_cancel (hfits (i + 1) (by omega)), ?_⟩
    rw [hns, getElem?_numberFrom, hl, hwidth l (List.mem_of_getElem? hl), Nat.add_comm 1 i]
    rfl
  · rw [hns]
    rcases List.eq_nil_or_concat ls with hnil | ⟨_, l, hl⟩
    · rw [hnil, numberFrom_nil, List.map_nil, ← hnil]
      exact join_keptLines s
    · rw [hwidth l (by simp [hl]), map_drop_numberFrom hfits]
      exact join_keptLines s

theorem number_aligned_ten :
    let s := "a\n\nb\nc\nd\ne\nf\ng\nh\ni"
    holdsElements 16 (keptLines s).length = true ∧ (keptLines (number s)).length = 10 ∧
      (keptLines (number s))[1]? = some "02 \n" ∧ (keptLines (number s))[9]? = some "10 i" ∧
      String.join ((keptLines (number s)).map fun l => String.ofList (l.toList.drop 3)) = s := by
  intro s
  have hold : holdsElements 16 (keptLines s).length = true := by decide
  have hcount : (keptLines s).length = 10 := by decide
  obtain ⟨-, -, hlength, hline, hdrop⟩ := number_aligned s hold
  rw [hcount] at hlength hline hdrop
  obtain ⟨zeros, hzeros, hsecond⟩ := hline 1 "\n" (by decide)
  obtain rfl : zeros = 1 := Nat.add_right_cancel (m := 1) hzeros
  obtain ⟨zeros, hzeros, hlast⟩ := hline 9 "i" (by decide)
  obtain rfl : zeros = 0 := Nat.add_right_cancel (m := 2) hzeros
  exact ⟨hold, hlength, hsecond, hlast, hdrop⟩

end LoopNest.Text
