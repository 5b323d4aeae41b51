import LoopNest.C.Source
import Mathlib.Data.List.Basic

/-!
# The tokens of a line

The tokens of a line are found from its start on: cutting off the first token leaves fewer characters
(`length_first`), and the tokens of what is left do not depend on what was in front of it
(`cut_of_first`). Each equation below cuts one name, one number or one mark off.
-/

namespace LoopNest.C

open Compiler

/-- The tokens of some characters. -/
def cut (cs : List Char) : List Token := (Token.ofLine [] 0 cs).map (·.token)

/-! ## Progress -/

theorem length_nameTail (tail cs : List Char) :
    tail.length ≤ (Token.nameTail tail cs).1.length ∧
      (Token.nameTail tail cs).1.length + (Token.nameTail tail cs).2.length ≤ tail.length + cs.length := by
  fun_induction Token.nameTail tail cs <;> simp_all <;> omega

theorem length_numberTail (tail cs : List Char) : (Token.numberTail tail cs).2.length ≤ cs.length := by
  fun_induction Token.numberTail tail cs <;> simp_all <;> omega

theorem length_untilQuote {quote : Char} {inside cs : List Char} {r : List Char × List Char}
    (h : Token.untilQuote quote inside cs = some r) : r.2.length ≤ cs.length := by
  fun_induction Token.untilQuote quote inside cs with
  | case1 => cases h
  | case2 inside c cs ih =>
    have := ih h
    simp only [List.length_cons]
    omega
  | case3 inside cs =>
    cases h
    simp
  | case4 inside c cs _ hne ih =>
    have := ih h
    simp only [List.length_cons]
    omega

/-- A literal ends behind its quote. -/
theorem length_literal (encoding : String) (quote : Char) {cs : List Char} {default : Token × List Char}
    {n : Nat} (hcs : cs.length ≤ n) (hdefault : default.2.length ≤ n) :
    (((Token.untilQuote quote [] cs).map fun r =>
      (if quote = '"' then Token.text encoding (String.ofList r.1.reverse)
        else .character encoding (String.ofList r.1.reverse), r.2)).getD default).2.length ≤ n := by
  cases h : Token.untilQuote quote [] cs with
  | none => exact hdefault
  | some r => exact Nat.le_trans (length_untilQuote h) hcs

/-- The first token has a character. -/
theorem length_first (encodings : List String) (c : Char) (cs : List Char) :
    (Token.first encodings c cs).2.length ≤ cs.length := by
  rw [Token.first]
  split
  · obtain ⟨htail, hrest⟩ := length_nameTail [c] cs
    generalize Token.nameTail [c] cs = r at htail hrest
    obtain ⟨tail, rest⟩ := r
    simp only [List.length_singleton] at htail hrest
    cases rest with
    | nil => exact Nat.zero_le _
    | cons q after =>
      have hafter : (q :: after).length ≤ cs.length := by omega
      dsimp only
      split
      · exact length_literal _ q (Nat.le_of_succ_le hafter) hafter
      · exact hafter
  split
  · exact length_numberTail [c] cs
  split
  · exact length_literal "" c (Nat.le_refl _) (Nat.le_refl _)
  split
  · rename_i written meant hfind
    have hne : ∀ m ∈ Token.marks, m.1 ≠ [] := by decide
    have hpos : 0 < written.length :=
      List.length_pos_iff.mpr (hne _ (List.mem_of_find?_eq_some hfind))
    simp only [List.length_drop, List.length_cons]
    omega
  · obtain ⟨-, hrest⟩ := length_nameTail [] (c :: cs)
    split
    · exact Nat.le_refl _
    · rename_i name rest hne heq
      rw [heq] at hrest
      have hpos : 0 < name.length := List.length_pos_iff.mpr hne
      simp only [List.length_nil, List.length_cons] at hrest
      dsimp only
      omega

/-! ## Tokens -/

/-- Some characters are cut into some tokens, whatever is in front of them. -/
def Splits (cs : List Char) (ts : List Token) : Prop :=
  ∀ (line fuel : Nat) (spaced : Bool) (done : List Lexeme), cs.length < fuel →
    (Token.scan [] line fuel spaced done cs).map (·.token) = ts.reverse ++ done.map (·.token)

theorem Splits.cut_eq {cs : List Char} {ts : List Token} (h : Splits cs ts) : cut cs = ts := by
  rw [cut, Token.ofLine, List.map_reverse, h 0 _ false [] (Nat.lt_succ_self _)]
  simp

theorem Splits.gap {c : Char} {cs : List Char} {ts : List Token} (h : Splits cs ts)
    (hgap : Token.isGap c = true) : Splits (c :: cs) ts := by
  intro line fuel spaced done hlt
  cases fuel with
  | zero => simp at hlt
  | succ fuel =>
    rw [Token.scan, hgap, if_pos rfl]
    exact h line fuel true done (by simpa using hlt)

theorem Splits.first {c : Char} {cs : List Char} {ts : List Token}
    (h : Splits (Token.first [] c cs).2 ts) (hgap : Token.isGap c = false) :
    Splits (c :: cs) ((Token.first [] c cs).1 :: ts) := by
  have hlen := length_first [] c cs
  intro line fuel spaced done hlt
  cases fuel with
  | zero => simp at hlt
  | succ fuel =>
    rw [Token.scan, hgap]
    simp only [Bool.false_eq_true, if_false]
    rw [h line fuel false _ (by simp at hlt; omega)]
    simp

/-- All characters are cut into tokens, by induction on their number. -/
theorem splits_cut (cs : List Char) : Splits cs (cut cs) := by
  suffices h : ∃ ts, Splits cs ts by
    obtain ⟨ts, hts⟩ := h
    rwa [hts.cut_eq]
  induction hn : cs.length using Nat.strongRecOn generalizing cs with
  | ind n ih =>
    cases cs with
    | nil =>
      refine ⟨[], fun line fuel spaced done hlt => ?_⟩
      cases fuel with
      | zero => simp at hlt
      | succ fuel => rfl
    | cons c cs =>
      rw [List.length_cons] at hn
      cases hgap : Token.isGap c with
      | true =>
        obtain ⟨ts, hts⟩ := ih cs.length (by omega) cs rfl
        exact ⟨ts, hts.gap hgap⟩
      | false =>
        have hlen := length_first [] c cs
        obtain ⟨ts, hts⟩ := ih _ (by omega) (Token.first [] c cs).2 rfl
        exact ⟨_, hts.first hgap⟩

@[simp] theorem cut_nil : cut [] = [] := rfl

@[simp] theorem cut_blank (rest : List Char) : cut (' ' :: rest) = cut rest :=
  ((splits_cut rest).gap rfl).cut_eq

theorem cut_of_first {c : Char} {cs rest : List Char} {t : Token} (hgap : Token.isGap c = false)
    (h : Token.first [] c cs = (t, rest)) : cut (c :: cs) = t :: cut rest := by
  have hsplits := (splits_cut (Token.first [] c cs).2).first hgap
  rw [h] at hsplits
  exact hsplits.cut_eq

@[simp] theorem cut_replicate_blank (n : Nat) (rest : List Char) :
    cut (List.replicate n ' ' ++ rest) = cut rest := by
  induction n with
  | zero => rfl
  | succ n ih => rw [List.replicate_succ, List.cons_append, cut_blank, ih]

/-! ## Marks -/

/-- The marks of kernels, with what follows where a longer mark starts alike. -/
@[simp] theorem cut_marks (rest : List Char) :
    cut ('(' :: rest) = .mark "(" :: cut rest ∧ cut (')' :: rest) = .mark ")" :: cut rest ∧
    cut ('[' :: rest) = .mark "[" :: cut rest ∧ cut (']' :: rest) = .mark "]" :: cut rest ∧
    cut ('\x7b' :: rest) = .mark "\x7b" :: cut rest ∧ cut ('\x7d' :: rest) = .mark "\x7d" :: cut rest ∧
    cut (',' :: rest) = .mark "," :: cut rest ∧ cut (';' :: rest) = .mark ";" :: cut rest ∧
    cut ('+' :: '=' :: rest) = .mark "+=" :: cut rest ∧ cut ('+' :: '+' :: rest) = .mark "++" :: cut rest := by
  refine ⟨?_, ?_, ?_, ?_, ?_, ?_, ?_, ?_, ?_, ?_⟩
  all_goals exact cut_of_first rfl rfl

@[simp] theorem cut_marks_blank (rest : List Char) :
    cut ('=' :: ' ' :: rest) = .mark "=" :: cut rest ∧ cut ('<' :: ' ' :: rest) = .mark "<" :: cut rest ∧
    cut ('+' :: ' ' :: rest) = .mark "+" :: cut rest ∧ cut ('-' :: ' ' :: rest) = .mark "-" :: cut rest := by
  rw [← cut_blank rest]
  refine ⟨?_, ?_, ?_, ?_⟩
  all_goals exact cut_of_first rfl rfl

@[simp] theorem cut_star {c : Char} (h : c ≠ '=') (rest : List Char) :
    cut ('*' :: c :: rest) = .mark "*" :: cut (c :: rest) := by
  have hstart : Token.isNameStart '*' = false := rfl
  exact cut_of_first rfl (by simp [Token.first, Token.marks, hstart, Ne.symm h])

@[simp] theorem cut_slash {c : Char} (h : c ≠ '=') (rest : List Char) :
    cut ('/' :: c :: rest) = .mark "/" :: cut (c :: rest) := by
  have hstart : Token.isNameStart '/' = false := rfl
  exact cut_of_first rfl (by simp [Token.first, Token.marks, hstart, Ne.symm h])

/-- A minus in front of a digit. -/
theorem cut_minus {c : Char} (h : c.isDigit = true) (rest : List Char) :
    cut ('-' :: c :: rest) = .mark "-" :: cut (c :: rest) := by
  have hstart : Token.isNameStart '-' = false := rfl
  have hne : '>' ≠ c ∧ '-' ≠ c ∧ '=' ≠ c := by
    refine ⟨?_, ?_, ?_⟩
    all_goals
      rintro rfl
      cases h
  exact cut_of_first rfl (by simp [Token.first, Token.marks, hstart, hne])

/-! ## Names -/

/-- Characters at which names and numbers end. -/
def Ends (cs : List Char) : Prop :=
  ∀ c ∈ cs.head?, Token.isNameChar c = false ∧ c ≠ '\\' ∧ c ≠ '.' ∧ c ≠ '"' ∧ c ≠ '\''

@[simp] theorem Ends.nil : Ends [] := nofun

@[simp] theorem Ends.cons {c : Char} (h : c ∈ [' ', '(', ')', '*', '+', ',', '/', ';', '[', ']'])
    (rest : List Char) : Ends (c :: rest) := by
  intro d hd
  cases hd
  simp only [List.mem_cons, List.not_mem_nil, or_false] at h
  rcases h with rfl | rfl | rfl | rfl | rfl | rfl | rfl | rfl | rfl | rfl <;> decide

/-- A word that can be a name. -/
def IsName (s : String) : Prop :=
  ∃ c cs, s.toList = c :: cs ∧ Token.isNameStart c = true ∧ ∀ c ∈ cs, Token.isNameChar c = true

/-- Characters that can follow on the first one of a name. -/
def IsWord (s : String) : Prop := ∀ c ∈ s.toList, Token.isNameChar c = true

instance (s : String) : Decidable (IsWord s) :=
  decidable_of_iff (s.toList.all Token.isNameChar = true) List.all_eq_true

instance (w : String) : Decidable (IsName w) :=
  match h : w.toList with
  | [] => .isFalse fun ⟨c, cs, h', _⟩ => by
    rw [h'] at h
    cases h
  | c :: cs => decidable_of_iff (Token.isNameStart c = true ∧ cs.all Token.isNameChar = true)
      ⟨fun hc => ⟨c, cs, h, hc.1, List.all_eq_true.mp hc.2⟩, fun ⟨_, _, h', hc, hall⟩ => by
        rw [h'] at h
        cases h
        exact ⟨hc, List.all_eq_true.mpr hall⟩⟩

theorem isNameChar_of_isNameStart {c : Char} (h : Token.isNameStart c = true) :
    Token.isNameChar c = true := by
  rw [Token.isNameStart, Bool.and_eq_true, Bool.and_eq_true] at h
  exact h.1.1

theorem isNameChar_of_isDigit {c : Char} (h : c.isDigit = true) : Token.isNameChar c = true := by
  simp [Token.isNameChar, Char.isAlphanum, h]

theorem IsName.append {s t : String} (hs : IsName s) (ht : IsWord t) : IsName (s ++ t) := by
  obtain ⟨c, cs, hcs, hc, hall⟩ := hs
  refine ⟨c, cs ++ t.toList, by rw [String.toList_append, hcs, List.cons_append], hc, fun d hd => ?_⟩
  exact (List.mem_append.mp hd).elim (hall d) (ht d)

theorem IsName.isWord {s : String} (h : IsName s) : IsWord s := by
  obtain ⟨c, cs, hcs, hc, hall⟩ := h
  intro d hd
  rw [hcs] at hd
  rcases List.mem_cons.mp hd with rfl | hd
  · exact isNameChar_of_isNameStart hc
  · exact hall d hd

theorem nameTail_append {w rest : List Char} (hw : ∀ c ∈ w, Token.isNameChar c = true) (hends : Ends rest)
    (tail : List Char) : Token.nameTail tail (w ++ rest) = (w.reverse ++ tail, rest) := by
  have hslash : Token.isNameChar '\\' = false := by decide
  induction w generalizing tail with
  | nil =>
    cases rest with
    | nil => rfl
    | cons c rest =>
      obtain ⟨hc, hne, -⟩ := hends c rfl
      rw [List.nil_append, Token.nameTail.eq_def]
      split <;> simp_all
  | cons c w ih =>
    have hc := hw c (.head _)
    rw [List.cons_append, Token.nameTail.eq_def]
    split <;> simp_all

theorem isGap_eq_false {c : Char} (h : Token.isNameChar c = true) : Token.isGap c = false := by
  by_contra hgap
  simp only [Token.isGap, Bool.not_eq_false, Bool.or_eq_true, beq_iff_eq, List.contains_iff_mem,
    List.mem_cons, List.not_mem_nil, or_false] at hgap
  have hcode : ∀ n, c.toNat = n → c = Char.ofNat n := fun n hn => hn ▸ (Char.ofNat_toNat c).symm
  rcases hgap with ((rfl | rfl) | rfl) | hn | hn | hn
  · revert h; decide
  · revert h; decide
  · revert h; decide
  all_goals
    rw [hcode _ hn] at h
    revert h
    decide

/-- A word is read to its end. -/
theorem ofList_reverse {c : Char} {cs : List Char} {w : String} (h : w.toList = c :: cs) :
    String.ofList (cs.reverse ++ [c]).reverse = w := by
  rw [List.reverse_append, List.reverse_reverse, List.reverse_singleton, List.singleton_append, ← h,
    String.ofList_toList]

theorem cut_name {w : String} {rest : List Char} (hw : IsName w) (hends : Ends rest) :
    cut (w.toList ++ rest) = .word w :: cut rest := by
  obtain ⟨c, cs, hcs, hc, hall⟩ := hw
  rw [hcs, List.cons_append]
  refine cut_of_first (isGap_eq_false (isNameChar_of_isNameStart hc)) ?_
  rw [Token.first, hc, nameTail_append hall hends, if_pos rfl]
  simp only [ofList_reverse hcs]
  cases rest <;> simp

/-! ## Numbers -/

/-- A word is read as one number, up to characters at which numbers end. -/
def IsNumeral (s : String) : Prop :=
  ∃ c cs, s.toList = c :: cs ∧ c.isDigit = true ∧
    ∀ rest, Ends rest → Token.numberTail [c] (cs ++ rest) = (cs.reverse ++ [c], rest)

theorem cut_numeral {w : String} {rest : List Char} (hw : IsNumeral w) (hends : Ends rest) :
    cut (w.toList ++ rest) = .number w :: cut rest := by
  obtain ⟨c, cs, hcs, hc, hall⟩ := hw
  have hstart : Token.isNameStart c = false := by simp [Token.isNameStart, hc]
  rw [hcs, List.cons_append]
  refine cut_of_first (isGap_eq_false (isNameChar_of_isDigit hc)) ?_
  rw [Token.first, hstart, hall rest hends]
  simp only [ofList_reverse hcs]
  simp [hc]

/-- A minus is not part of the number behind it. -/
theorem cut_negative {w : String} {rest : List Char} (hw : IsNumeral w) (hends : Ends rest) :
    cut ('-' :: (w.toList ++ rest)) = .mark "-" :: .number w :: cut rest := by
  rw [← cut_numeral hw hends]
  obtain ⟨c, cs, hcs, hc, -⟩ := hw
  rw [hcs, List.cons_append, cut_minus hc]

/-- Name characters and points go on with a number. -/
theorem numberTail_append {w : List Char} (hw : ∀ c ∈ w, Token.isNameChar c = true ∨ c = '.')
    (tail rest : List Char) : Token.numberTail tail (w ++ rest) = Token.numberTail (w.reverse ++ tail) rest := by
  induction w generalizing tail with
  | nil => rfl
  | cons c w ih =>
    rw [List.forall_mem_cons] at hw
    have hsign : (c == '+' || c == '-') = false := by
      rcases hw.1 with hc | rfl
      · by_contra h
        simp only [Bool.not_eq_false, Bool.or_eq_true, beq_iff_eq] at h
        rcases h with rfl | rfl <;> cases hc
      · rfl
    have hgoes : (Token.isNameChar c || c == '.') = true := by simpa using hw.1
    rw [List.cons_append, Token.numberTail, hsign, hgoes]
    simp only [Bool.false_and, Bool.false_eq_true, if_false, if_true]
    rw [ih hw.2, List.reverse_cons, List.append_assoc, List.singleton_append]

/-- A number ends behind a digit. -/
theorem numberTail_ends {c : Char} (hc : c.isDigit = true) {rest : List Char} (hends : Ends rest)
    (tail : List Char) : Token.numberTail (c :: tail) rest = (c :: tail, rest) := by
  have hexp : ['e', 'E', 'p', 'P'].contains c = false := by
    by_contra hmem
    simp only [Bool.not_eq_false, List.contains_iff_mem, List.mem_cons, List.not_mem_nil, or_false] at hmem
    rcases hmem with rfl | rfl | rfl | rfl <;> cases hc
  cases rest with
  | nil => rfl
  | cons d rest =>
    obtain ⟨hd, -, hpoint, -⟩ := hends d rfl
    rw [Token.numberTail]
    simp only [List.head?_cons, Option.any_some, hexp, hd, Bool.and_false, Bool.false_or,
      Bool.false_eq_true, if_false, beq_iff_eq, hpoint]

/-- Characters that end with a digit are one number if they are read up to this digit. -/
theorem IsNumeral.of_last {s : String} {c d : Char} {cs tail : List Char} (hs : s.toList = c :: cs)
    (hc : c.isDigit = true) (hd : d.isDigit = true) (htail : (c :: cs).reverse = d :: tail)
    (h : ∀ rest, Token.numberTail [c] (cs ++ rest) = Token.numberTail (c :: cs).reverse rest) :
    IsNumeral s := by
  refine ⟨c, cs, hs, hc, fun rest hends => ?_⟩
  rw [h, htail, numberTail_ends hd hends, ← htail, List.reverse_cons]

/-- A number has no line feed, because reading it would stop there. -/
theorem IsNumeral.newline {s : String} (h : IsNumeral s) : '\n' ∉ s.toList := by
  have htail : ∀ tail cs, '\n' ∈ (Token.numberTail tail cs).1 → '\n' ∈ tail := by
    intro tail cs
    fun_induction Token.numberTail tail cs with
    | case1 => exact id
    | case2 tail c cs hsign ih =>
      intro hmem
      rcases List.mem_cons.mp (ih hmem) with rfl | hmem
      · simp at hsign
      · exact hmem
    | case3 tail c cs hsign hgoes ih =>
      intro hmem
      rcases List.mem_cons.mp (ih hmem) with rfl | hmem
      · exact absurd hgoes (by decide)
      · exact hmem
    | case4 => exact id
  obtain ⟨c, cs, hcs, hc, hall⟩ := h
  have hread := hall [] Ends.nil
  rw [List.append_nil] at hread
  intro hmem
  rw [hcs] at hmem
  have hstart := htail [c] cs (by rw [hread]; simpa [or_comm] using hmem)
  rw [← List.mem_singleton.mp hstart] at hc
  cases hc

theorem IsWord.newline {s : String} (h : IsWord s) : '\n' ∉ s.toList := fun hmem =>
  absurd (h _ hmem) (by decide)

theorem reverse_digits {ds : List Char} (hne : ds ≠ []) (hd : ∀ c ∈ ds, c.isDigit = true) (cs : List Char) :
    ∃ d tail, (cs ++ ds).reverse = d :: tail ∧ d.isDigit = true := by
  obtain ⟨d, tail, hds⟩ := List.exists_cons_of_ne_nil (mt List.reverse_eq_nil_iff.mp hne)
  exact ⟨d, tail ++ cs.reverse, by rw [List.reverse_append, hds, List.cons_append],
    hd d (List.mem_reverse.mp (hds ▸ .head _))⟩

theorem isDigit_toDigits (n : Nat) : ∀ c ∈ Nat.toDigits 10 n, c.isDigit = true :=
  fun _ hc => Nat.isDigit_of_mem_toDigits (by decide) (by decide) hc

theorem isNumeral_natural (n : Nat) : IsNumeral n.repr := by
  have hdigits := isDigit_toDigits n
  obtain ⟨d, tail, htail, hd⟩ := reverse_digits Nat.toDigits_ne_nil hdigits []
  obtain ⟨c, cs, hcs⟩ := List.exists_cons_of_ne_nil (Nat.toDigits_ne_nil (n := n) (b := 10))
  rw [hcs, List.forall_mem_cons] at hdigits
  rw [List.nil_append, hcs] at htail
  refine .of_last (Nat.toList_repr.trans hcs) hdigits.1 hd htail fun rest => ?_
  rw [List.reverse_cons]
  exact numberTail_append (fun e he => .inl (isNameChar_of_isDigit (hdigits.2 e he))) [c] rest

/-- The tokens of an integer. -/
def intTokens : Int → List Token
  | .ofNat n => [.number (toString n)]
  | .negSucc n => [.mark "-", .number (toString (n + 1))]

@[simp] theorem cut_int (k : Int) {rest : List Char} (hends : Ends rest) :
    cut (k.repr.toList ++ rest) = intTokens k ++ cut rest := by
  cases k with
  | ofNat n => exact cut_numeral (isNumeral_natural n) hends
  | negSucc n =>
    have htext : (Int.negSucc n).repr = "-" ++ toString (n + 1) := rfl
    rw [htext, String.toList_append, List.append_assoc]
    exact cut_negative (isNumeral_natural (n + 1)) hends

@[simp] theorem cut_natural (n : Nat) {rest : List Char} (hends : Ends rest) :
    cut (Nat.toDigits 10 n ++ rest) = .number n.repr :: cut rest := by
  rw [← Nat.toList_repr]
  exact cut_numeral (isNumeral_natural n) hends

/-! ## Addresses -/

/-- The tokens of an index. -/
def Index.tokens : Index → List Token
  | .loop name => [.word name]
  | .fixed k => intTokens k

/-- The tokens of an address. -/
def Offset.tokens : Offset → List Token
  | .index i => i.tokens
  | .step i extent inner =>
    i.tokens ++ .mark "+" :: (intTokens extent ++ .mark "*" :: .mark "(" :: (inner.tokens ++ [.mark ")"]))

/-- The loops of an address have names. -/
def Offset.Named : Offset → Prop
  | .index i => ∀ name, i = .loop name → IsName name
  | .step i _ inner => (∀ name, i = .loop name → IsName name) ∧ inner.Named

theorem cut_index {i : Index} (hi : ∀ name, i = .loop name → IsName name) {rest : List Char}
    (hends : Ends rest) : cut (i.render.toList ++ rest) = i.tokens ++ cut rest := by
  cases i with
  | loop name => exact cut_name (hi name rfl) hends
  | fixed k => exact cut_int k hends

/-- The text of an address is cut into its tokens, by induction on the nesting. -/
theorem cut_offset {o : Offset} (ho : o.Named) {rest : List Char} (hends : Ends rest) :
    cut (o.render.toList ++ rest) = o.tokens ++ cut rest := by
  induction o generalizing rest with
  | index i => exact cut_index ho hends
  | step i extent inner ih =>
    simp [Offset.render, Offset.tokens, cut_index ho.1, ih ho.2]

end LoopNest.C
