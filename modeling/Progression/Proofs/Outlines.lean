import Progression.Proofs.FloatTexts
import Progression.Proofs.Grammar
import Progression.Proofs.Inertness
import Progression.Statement.Outline

/-! Outlines can be read back. Quoting loses no character and stays on one line. The line that a node
begins with consists of words, from which its kind, its type and all that it holds besides its parts
can be told; so the lines of a tree say where it ends and which tree it is. -/

namespace Progression

/-! ### Quoted texts -/

namespace Text

theorem exists_digitChar {n : Nat} {c : Char} (h : c ∈ Nat.toDigits 16 n) :
    ∃ d < 16, c = Nat.digitChar d := by
  induction n using Nat.strongRecOn with
  | ind n ih =>
      rcases Nat.lt_or_ge n 16 with hSmall | hLarge
      · rw [Nat.toDigits_of_lt_base hSmall, List.mem_singleton] at h
        exact ⟨n, hSmall, h⟩
      · rw [Nat.toDigits_of_base_le (by decide) hLarge, List.mem_append, List.mem_singleton] at h
        rcases h with hFront | hLast
        · exact ih (n / 16) (by omega) hFront
        · exact ⟨n % 16, Nat.mod_lt n (by decide), hLast⟩

theorem notMem_toDigits {c : Char} (h : ∀ d < 16, c ≠ Nat.digitChar d) (n : Nat) :
    c ∉ Nat.toDigits 16 n := by
  intro hMem
  obtain ⟨d, hd, hc⟩ := exists_digitChar hMem
  exact h d hd hc

theorem digitChar_inj : ∀ d < 16, ∀ e < 16, Nat.digitChar d = Nat.digitChar e → d = e := by decide

theorem toDigits_sixteen_inj {m n : Nat} (h : Nat.toDigits 16 m = Nat.toDigits 16 n) : m = n := by
  induction m using Nat.strongRecOn generalizing n with
  | ind m ih =>
      have hLong {k : Nat} (hk : 16 ≤ k) :
          Nat.toDigits 16 k = Nat.toDigits 16 (k / 16) ++ [(k % 16).digitChar] :=
        Nat.toDigits_of_base_le (by decide) hk
      have hLast (k : Nat) : k % 16 < 16 := Nat.mod_lt k (by decide)
      rcases Nat.lt_or_ge m 16 with hm | hm <;> rcases Nat.lt_or_ge n 16 with hn | hn
      · rw [Nat.toDigits_of_lt_base hm, Nat.toDigits_of_lt_base hn] at h
        exact digitChar_inj m hm n hn (List.head_eq_of_cons_eq h)
      · rw [Nat.toDigits_of_lt_base hm, hLong hn] at h
        exact absurd (List.append_eq_singleton_iff.mp h.symm) (by simp)
      · rw [Nat.toDigits_of_lt_base hn, hLong hm] at h
        exact absurd (List.append_eq_singleton_iff.mp h) (by simp)
      · rw [hLong hm, hLong hn] at h
        obtain ⟨hFront, hBack⟩ := List.append_inj' h rfl
        have hQuotient := ih (m / 16) (by omega) hFront
        have hRemainder := digitChar_inj _ (hLast m) _ (hLast n) (List.head_eq_of_cons_eq hBack)
        omega

/-- The characters that have an escape of their own, with the letter of the escape. -/
def letters : List (Char × Char) :=
  [('\t', 't'), ('\r', 'r'), ('\n', 'n'), ('"', '"'), ('\\', '\\'), ('\x00', '0')]

/-- All that a character can be written as inside quotes. -/
inductive Written : Char → List Char → Prop where
  | letter {c letter : Char} (h : (c, letter) ∈ letters) : Written c ['\\', letter]
  | codePoint (c : Char) : Written c (codePointEscape c)
  | itself {c : Char} (hBackslash : c ≠ '\\') (hLine : c ≠ '\n') : Written c [c]

theorem written_quotedChar (c : Char) : Written c (quotedChar c) := by
  by_cases hLetter : c ∈ letters.map Prod.fst
  · obtain ⟨entry, hEntry, rfl⟩ := List.mem_map.mp hLetter
    have hAll : ∀ entry ∈ letters, quotedChar entry.1 = ['\\', entry.2] := by decide
    rw [hAll entry hEntry]
    exact .letter hEntry
  · simp only [letters, List.map_cons, List.map_nil, List.mem_cons, List.not_mem_nil, or_false,
      not_or] at hLetter
    obtain ⟨hTab, hReturn, hLine, hQuote, hBackslash, hNull⟩ := hLetter
    rw [quotedChar, if_neg hTab, if_neg hReturn, if_neg hLine, if_neg hQuote, if_neg hBackslash,
      if_neg hNull]
    split
    · exact .codePoint c
    · exact .itself hBackslash hLine

theorem Written.ne_nil {c : Char} {cs : List Char} (h : Written c cs) : cs ≠ [] := by
  cases h <;> simp [codePointEscape]

theorem Written.newline_notMem {c : Char} {cs : List Char} (h : Written c cs) : '\n' ∉ cs := by
  cases h with
  | letter hLetter =>
      have hNone : ∀ entry ∈ letters, '\n' ≠ entry.2 := by decide
      simpa using hNone _ hLetter
  | codePoint =>
      simpa [codePointEscape] using notMem_toDigits (by decide) c.toNat
  | itself _ hLine => simpa using hLine.symm

/-- What a character is written as shows where it ends and which character it is. -/
theorem Written.inj {c d : Char} {xs ys rest rest' : List Char} (hx : Written c xs)
    (hy : Written d ys) (h : xs ++ rest = ys ++ rest') : c = d ∧ rest = rest' := by
  have hLetters : ∀ one ∈ letters, ∀ two ∈ letters, one.2 = two.2 → one.1 = two.1 := by decide
  have hNoPoint : ∀ entry ∈ letters, entry.2 ≠ 'u' := by decide
  cases hx with
  | letter hc =>
      cases hy with
      | letter hd =>
          simp only [List.cons_append, List.nil_append, List.cons.injEq, true_and] at h
          exact ⟨hLetters _ hc _ hd h.1, h.2⟩
      | codePoint =>
          exact absurd (List.head_eq_of_cons_eq (List.tail_eq_of_cons_eq h)) (hNoPoint _ hc)
      | itself hd => exact absurd (List.head_eq_of_cons_eq h).symm hd
  | codePoint =>
      cases hy with
      | letter hd =>
          exact absurd (List.head_eq_of_cons_eq (List.tail_eq_of_cons_eq h)).symm (hNoPoint _ hd)
      | codePoint =>
          simp only [codePointEscape, List.cons_append, List.append_assoc, List.nil_append,
            List.cons.injEq, true_and] at h
          have hBrace (n : Nat) : '}' ∉ Nat.toDigits 16 n := notMem_toDigits (by decide) n
          obtain ⟨hDigits, hRest⟩ := append_inj_at (hBrace _) (hBrace _) h
          exact ⟨Char.toNat_inj.mp (toDigits_sixteen_inj hDigits), hRest⟩
      | itself hd => exact absurd (List.head_eq_of_cons_eq h).symm hd
  | itself hc =>
      cases hy with
      | letter | codePoint => exact absurd (List.head_eq_of_cons_eq h) hc
      | itself => simpa using h

theorem newline_notMem_quoted (text : String) : '\n' ∉ (quoted text).toList := by
  rw [quoted, String.toList_ofList]
  have hInside : '\n' ∉ text.toList.flatMap quotedChar := by
    intro h
    obtain ⟨c, -, hc⟩ := List.mem_flatMap.mp h
    exact (written_quotedChar c).newline_notMem hc
  simpa using hInside

theorem flatMap_quotedChar_inj {xs ys : List Char}
    (h : xs.flatMap quotedChar = ys.flatMap quotedChar) : xs = ys := by
  have hNonempty (c : Char) (rest : List Char) : quotedChar c ++ rest ≠ [] :=
    List.append_ne_nil_of_left_ne_nil (written_quotedChar c).ne_nil rest
  induction xs generalizing ys with
  | nil =>
      cases ys with
      | nil => rfl
      | cons d ys => exact absurd h.symm (hNonempty d _)
  | cons c xs ih =>
      cases ys with
      | nil => exact absurd h (hNonempty c _)
      | cons d ys =>
          obtain ⟨rfl, hRest⟩ := (written_quotedChar c).inj (written_quotedChar d) h
          rw [ih hRest]

/-- A text can be told from its quoted form. -/
theorem quoted_inj {one two : String} (h : quoted one = quoted two) : one = two := by
  have hChars := List.tail_eq_of_cons_eq (String.ofList_injective h)
  exact String.toList_injective (flatMap_quotedChar_inj (List.append_cancel_right hChars))

end Text

/-! ### Words -/

/-- Neither a blank nor a parenthesis that closes a node nor the end of a line. -/
def isPlain (c : Char) : Bool := c ≠ ' ' && c ≠ ')' && c ≠ '\n'

/-- A text that stays one word in a line. -/
def Plain (word : String) : Prop := ∀ c ∈ word.toList, isPlain c = true

theorem plain_of {p : Char → Bool} {word : String} (hWord : ∀ c ∈ word.toList, p c = true)
    (h : ∀ c, isPlain c = false → p c = false) : Plain word := by
  intro c hc
  by_contra hNot
  have hOther := h c (Bool.eq_false_iff.mpr hNot)
  rw [hWord c hc] at hOther
  cases hOther

theorem Plain.append {one two : String} (hOne : Plain one) (hTwo : Plain two) : Plain (one ++ two) := by
  intro c hc
  rw [String.toList_append, List.mem_append] at hc
  exact hc.elim (hOne c) (hTwo c)

theorem eq_of_not_isPlain {c : Char} (h : isPlain c = false) : c = ' ' ∨ c = ')' ∨ c = '\n' := by
  simpa [isPlain, or_iff_not_imp_left] using h

theorem plain_floatText (x : Float) : Plain (Decimal.floatText x) := by
  apply plain_of fun c hc => Decimal.isNumeral_of_mem_floatText hc
  intro c hc
  rcases eq_of_not_isPlain hc with rfl | rfl | rfl <;> rfl

theorem plain_repr (n : Nat) : Plain n.repr := by
  apply plain_of fun c hc =>
    Nat.isDigit_of_mem_toDigits (by decide) (by decide) (Nat.toList_repr ▸ hc)
  intro c hc
  rcases eq_of_not_isPlain hc with rfl | rfl | rfl <;> rfl

theorem plain_int_repr (i : Int) : Plain i.repr := by
  cases i with
  | ofNat n => exact plain_repr n
  | negSucc n => exact Plain.append (by simp [Plain, isPlain]) (plain_repr (n + 1))

/-- No natural number is written with a sign. -/
theorem repr_ne_minus_append (n : Nat) (text : String) : n.repr ≠ "-" ++ text := by
  intro h
  have hMinus : '-' ∈ n.repr.toList := by simp [h]
  rw [Nat.toList_repr] at hMinus
  cases Nat.isDigit_of_mem_toDigits (by decide) (by decide) hMinus

theorem eq_of_repr {m n : Nat} (h : m.repr = n.repr) : m = n := by
  have hRead := congrArg (fun text => Nat.ofDigitChars 10 text.toList 0) h
  simpa only [Nat.toList_repr, Nat.ofDigitChars_ten_toDigits] using hRead

theorem eq_of_int_repr {i j : Int} (h : i.repr = j.repr) : i = j := by
  cases i with
  | ofNat m =>
      cases j with
      | ofNat n => rw [eq_of_repr h]
      | negSucc n => exact absurd h (repr_ne_minus_append m _)
  | negSucc m =>
      cases j with
      | ofNat n => exact absurd h.symm (repr_ne_minus_append n _)
      | negSucc n =>
          have hText : (m + 1).repr = (n + 1).repr := (String.append_right_inj "-").mp h
          rw [Nat.succ.inj (eq_of_repr hText)]

theorem plain_symbol (op : Operator) : Plain op.symbol := by
  cases op <;> simp [Plain, isPlain, Operator.symbol]

theorem Ty.plain_text (type : Ty) : Plain type.text := by
  induction type with
  | number => simp [Plain, isPlain, text]
  | sequence element ih =>
      exact Plain.append (Plain.append (by simp [Plain, isPlain]) ih) (by simp [Plain, isPlain])

theorem Ty.text_number_ne (element : Ty) : number.text ≠ (sequence element).text := by
  intro h
  have hHead := congrArg (fun text : String => text.toList.head?) h
  simp [text] at hHead

theorem Ty.text_inj {one two : Ty} (h : one.text = two.text) : one = two := by
  induction one generalizing two with
  | number =>
      cases two with
      | number => rfl
      | sequence element => exact absurd h (text_number_ne element)
  | sequence element ih =>
      cases two with
      | number => exact absurd h.symm (text_number_ne element)
      | sequence element' =>
          rw [text, text, String.append_left_inj, String.append_right_inj] at h
          rw [ih h]

theorem Operator.symbol_inj {one two : Operator} (h : one.symbol = two.symbol) : one = two := by
  revert h
  cases one <;> cases two <;> simp [symbol]

/-! ### Nodes -/

/-- What the first line of an expression says of its type. -/
def Mark.words (mark : Mark) : List String :=
  match mark.type with
  | some type => [":", type.text]
  | none => []

namespace Expr

/-- The words that say what kind of expression it is and what it holds besides its parts. -/
def label : Expr → List String
  | int _ value => ["int", value.toInt.repr]
  | float _ value => ["float", Decimal.floatText value]
  | ref _ name _ => ["ref", name]
  | binary _ op _ _ => ["binary", op.symbol]
  | paren _ _ => ["paren"]
  | range _ _ _ => ["range"]
  | map _ _ param _ => ["map", param.name]
  | reduce _ _ _ accumulator element _ => ["reduce", accumulator.name, element.name]

/-- The words of the line that an expression begins with. -/
def words (e : Expr) : List String := e.label ++ e.mark.words

/-- The expressions that stand below this line, in order. -/
def parts : Expr → List Expr
  | int _ _ | float _ _ | ref _ _ _ => []
  | binary _ _ left right => [left, right]
  | paren _ inner => [inner]
  | range _ lower upper => [lower, upper]
  | map _ argument _ body => [argument, body]
  | reduce _ sequence base _ _ body => [sequence, base, body]

/-- What holds of an expression if it holds of its parts holds of all expressions. -/
theorem induct_parts {motive : Expr → Prop} (h : ∀ e, (∀ p ∈ e.parts, motive p) → motive e)
    (e : Expr) : motive e := by
  induction e with
  | int | float | ref => exact h _ (by simp [parts])
  | paren mark inner ih => exact h _ (by simpa [parts] using ih)
  | binary mark op left right ihLeft ihRight => exact h _ (by simp [parts, ihLeft, ihRight])
  | range mark lower upper ihLower ihUpper => exact h _ (by simp [parts, ihLower, ihUpper])
  | map mark argument param body ihArgument ihBody => exact h _ (by simp [parts, ihArgument, ihBody])
  | reduce mark sequence base accumulator element body ihSequence ihBase ihBody =>
      exact h _ (by simp [parts, ihSequence, ihBase, ihBody])

end Expr

namespace Outline

/-- Words with a space between them. -/
def spaced (words : List String) : List Char := [' '].intercalate (words.map String.toList)

@[simp] theorem spaced_nil : spaced [] = [] := rfl

@[simp] theorem spaced_singleton (word : String) : spaced [word] = word.toList := by
  simp [spaced, List.intercalate_singleton]

@[simp] theorem spaced_cons_cons (word next : String) (words : List String) :
    spaced (word :: next :: words) = word.toList ++ ' ' :: spaced (next :: words) := by
  simp [spaced, List.intercalate_cons_cons]

theorem spaced_append {words more : List String} (h : words ≠ []) (hMore : more ≠ []) :
    spaced (words ++ more) = spaced words ++ ' ' :: spaced more := by
  obtain ⟨next, more, rfl⟩ := List.exists_cons_of_ne_nil hMore
  induction words with
  | nil => exact absurd rfl h
  | cons word words ih =>
      cases words with
      | nil => simp
      | cons other words => simpa using ih (List.cons_ne_nil other words)

theorem mem_spaced {words : List String} {c : Char} (h : c ∈ spaced words) :
    c = ' ' ∨ ∃ word ∈ words, c ∈ word.toList := by
  induction words with
  | nil => simp at h
  | cons word words ih =>
      cases words with
      | nil => exact .inr ⟨word, List.mem_cons_self, by simpa using h⟩
      | cons next words =>
          rw [spaced_cons_cons, List.mem_append, List.mem_cons] at h
          rcases h with hWord | hSpace | hRest
          · exact .inr ⟨word, List.mem_cons_self, hWord⟩
          · exact .inl hSpace
          · rcases ih hRest with hSpace | ⟨other, hOther, hc⟩
            · exact .inl hSpace
            · exact .inr ⟨other, List.mem_cons_of_mem word hOther, hc⟩

theorem notMem_spaced {words : List String} (h : ∀ word ∈ words, Plain word) {c : Char}
    (hPlain : isPlain c = false) (hSpace : c ≠ ' ') : c ∉ spaced words := by
  intro hMem
  rcases mem_spaced hMem with rfl | ⟨word, hWord, hc⟩
  · exact hSpace rfl
  · rw [h word hWord c hc] at hPlain
    cases hPlain

theorem spaced_inj {one two : List String} (hOne : ∀ word ∈ one, Plain word)
    (hTwo : ∀ word ∈ two, Plain word) (hNonempty : one ≠ []) (hNonempty' : two ≠ [])
    (h : spaced one = spaced two) : one = two := by
  have hSplit {words : List String} (hWords : ∀ word ∈ words, Plain word) (hSome : words ≠ []) :
      List.splitOn ' ' (spaced words) = words.map String.toList := by
    apply List.splitOn_intercalate
    · intro cs hcs hSpace
      obtain ⟨word, hWord, rfl⟩ := List.mem_map.mp hcs
      exact absurd (hWords word hWord ' ' hSpace) (by decide)
    · simpa using hSome
  have hLists := congrArg (List.splitOn ' ') h
  rw [hSplit hOne hNonempty, hSplit hTwo hNonempty'] at hLists
  exact List.map_injective_iff.mpr (fun _ _ => String.toList_injective) hLists

/-- The line of words that a node begins with, closed if nothing stands below it. -/
def headLine (depth : Nat) (words : List String) (closed : Bool) : String :=
  line depth (String.ofList ('(' :: spaced words ++ if closed then [')'] else []))

theorem line_inj {depth : Nat} {one two : String} (h : line depth one = line depth two) :
    one = two := (String.append_right_inj _).mp h

theorem node_inj {depth : Nat} {header header' : String} {below below' rest rest' : List String}
    (h : node depth header below ++ rest = node depth header' below' ++ rest') :
    header = header' ∧ below ++ line depth ")" :: rest = below' ++ line depth ")" :: rest' := by
  simp only [node, List.cons_append, List.append_assoc, List.nil_append, List.cons.injEq] at h
  exact ⟨(String.append_right_inj _).mp (line_inj h.1), h.2⟩

theorem headLine_inj {depth : Nat} {one two : List String} {closed closed' : Bool}
    (hOne : ∀ word ∈ one, Plain word) (hTwo : ∀ word ∈ two, Plain word) (hNonempty : one ≠ [])
    (hNonempty' : two ≠ []) (h : headLine depth one closed = headLine depth two closed') :
    one = two := by
  have hOpen {words : List String} (hWords : ∀ word ∈ words, Plain word) : ')' ∉ spaced words :=
    notMem_spaced hWords rfl (by decide)
  have hChars : spaced one ++ (if closed then [')'] else []) =
      spaced two ++ if closed' then [')'] else [] :=
    List.tail_eq_of_cons_eq (String.ofList_injective (line_inj h))
  apply spaced_inj hOne hTwo hNonempty hNonempty'
  -- A line that is closed holds the parenthesis, one that is not closed does not.
  cases closed <;> cases closed' <;>
    simp only [Bool.false_eq_true, if_false, if_true, List.append_nil] at hChars
  · exact hChars
  · exact absurd (by simp [hChars]) (hOpen hOne)
  · exact absurd (by simp [← hChars]) (hOpen hTwo)
  · exact List.append_cancel_right hChars

theorem newline_notMem_line {depth : Nat} {text : String} (h : '\n' ∉ text.toList) :
    '\n' ∉ (line depth text).toList := by
  simp [line, h]

theorem newline_notMem_headLine {words : List String} (h : ∀ word ∈ words, Plain word) (depth : Nat)
    (closed : Bool) : '\n' ∉ (headLine depth words closed).toList := by
  have hWords : '\n' ∉ spaced words := notMem_spaced h rfl (by decide)
  apply newline_notMem_line
  cases closed <;> simp [hWords]

theorem typed_eq {header : String} {label : List String} (h : header.toList = spaced label)
    (hLabel : label ≠ []) (mark : Mark) :
    (typed header mark).toList = spaced (label ++ mark.words) := by
  cases hType : mark.type with
  | none => simp [typed, Mark.words, hType, h]
  | some type => simp [typed, Mark.words, hType, h, spaced_append hLabel]

theorem leaf_typed {header : String} {label : List String} (h : header.toList = spaced label)
    (hLabel : label ≠ []) (mark : Mark) (depth : Nat) :
    leaf depth (typed header mark) = [headLine depth (label ++ mark.words) true] := by
  have hText : "(" ++ typed header mark ++ ")" =
      String.ofList ('(' :: (typed header mark).toList ++ [')']) := by
    apply String.toList_injective
    simp
  rw [leaf, headLine, ← typed_eq h hLabel, hText]
  rfl

theorem node_typed {header : String} {label : List String} (h : header.toList = spaced label)
    (hLabel : label ≠ []) (mark : Mark) (depth : Nat) (below : List String) :
    node depth (typed header mark) below =
      headLine depth (label ++ mark.words) false :: (below ++ [line depth ")"]) := by
  have hText : "(" ++ typed header mark = String.ofList ('(' :: (typed header mark).toList ++ []) := by
    apply String.toList_injective
    simp
  rw [node, headLine, ← typed_eq h hLabel, hText]
  rfl

end Outline

open Outline

/-- An expression is written as the line of its words and, if it has parts, those below it and a line
that closes it. -/
theorem Expr.outline_eq (e : Expr) (depth : Nat) :
    e.outline depth = headLine depth e.words e.parts.isEmpty ::
      (e.parts.flatMap (·.outline (depth + 1)) ++
        if e.parts.isEmpty then [] else [line depth ")"]) := by
  have hLabel : e.label ≠ [] := by cases e <;> simp [label]
  cases e with
  | int mark _ | float mark _ | ref mark _ _ =>
      refine (leaf_typed ?_ hLabel mark depth).trans rfl
      simp [label]
  | binary mark _ _ _ | paren mark _ | range mark _ _ | map mark _ _ _ | reduce mark _ _ _ _ _ =>
      refine (node_typed ?_ hLabel mark depth _).trans ?_
      · simp [label]
      · simp [words, parts, Expr.mark]

/-! ### Trees -/

theorem Mark.bare_eq_of_words {mark mark' : Mark} (h : mark.words = mark'.words) :
    mark.bare = mark'.bare := by
  have hType : mark.type = mark'.type := by
    cases hOne : mark.type <;> cases hTwo : mark'.type <;> simp [words, hOne, hTwo] at h
    · rfl
    · rw [Ty.text_inj h]
  rw [bare, bare, hType]

theorem Binding.eq_of_name {one two : Binding} (h : one.name = two.name) :
    one.bare.anonymous = two.bare.anonymous := by
  rw [bare, bare, anonymous, anonymous, h]

namespace Expr

/-- All names of the expression are words, and its floats are numbers. -/
def Printable : Expr → Prop
  | int _ _ => True
  | float _ value => Decimal.IsNumber value
  | ref _ name _ => Plain name
  | binary _ _ left right => left.Printable ∧ right.Printable
  | paren _ inner => inner.Printable
  | range _ lower upper => lower.Printable ∧ upper.Printable
  | map _ argument param body => argument.Printable ∧ Plain param.name ∧ body.Printable
  | reduce _ sequence base accumulator element body =>
      sequence.Printable ∧ base.Printable ∧ Plain accumulator.name ∧ Plain element.name ∧
        body.Printable

variable {e e' : Expr}

theorem Printable.parts (h : e.Printable) : ∀ p ∈ e.parts, p.Printable := by
  cases e <;> simp_all [Printable, Expr.parts]

theorem Printable.plain_words (h : e.Printable) : ∀ word ∈ e.words, Plain word := by
  have hMark : ∀ word ∈ e.mark.words, Plain word := by
    unfold Mark.words
    split
    · next type _ => simpa [Ty.plain_text] using (by simp [Plain, isPlain] : Plain ":")
    · simp
  have hLabel : ∀ word ∈ e.label, Plain word := by
    have hKind : ∀ word ∈ ["int", "float", "ref", "binary", "paren", "range", "map", "reduce"],
        Plain word := by simp [Plain, isPlain]
    simp only [List.forall_mem_cons] at hKind
    cases e <;> simp_all [label, Printable, plain_int_repr, plain_floatText, plain_symbol]
  exact List.forall_mem_append.mpr ⟨hLabel, hMark⟩

theorem words_ne_nil (e : Expr) : e.words ≠ [] := by
  cases e <;> simp [words, label]

theorem label_eq_of_words (h : e.words = e'.words) :
    e.label = e'.label ∧ e.mark.bare = e'.mark.bare := by
  have hBoth : e.label = e'.label ∧ e.mark.words = e'.mark.words := by
    cases e <;> cases e' <;> simp_all [words, label, mark]
  exact ⟨hBoth.1, Mark.bare_eq_of_words hBoth.2⟩

theorem length_parts_of_label (h : e.label = e'.label) : e.parts.length = e'.parts.length := by
  cases e <;> cases e' <;> first | rfl | simp [label] at h

/-- Mark, label and parts are all that there is to an expression. -/
theorem eq_of_label (hLabel : e.label = e'.label) (hMark : e.mark.bare = e'.mark.bare)
    (he : e.Printable) (he' : e'.Printable)
    (hParts : e.parts.map (·.bare.anonymous) = e'.parts.map (·.bare.anonymous)) :
    e.bare.anonymous = e'.bare.anonymous := by
  cases e <;> cases e' <;> simp only [label, List.cons.injEq, and_true, reduceCtorEq, and_false,
    String.reduceEq, false_and, true_and] at hLabel <;>
    simp only [mark, parts, List.map_cons, List.map_nil, List.cons.injEq, and_true] at hMark hParts <;>
    simp only [bare, anonymous, hMark]
  case int.int => rw [Int64.toInt_inj.mp (eq_of_int_repr hLabel)]
  case float.float => rw [Decimal.floatText_inj he he' hLabel]
  case ref.ref => rw [hLabel]
  case binary.binary => rw [Operator.symbol_inj hLabel, hParts.1, hParts.2]
  case paren.paren => rw [hParts]
  case range.range => rw [hParts.1, hParts.2]
  case map.map => rw [Binding.eq_of_name hLabel, hParts.1, hParts.2]
  case reduce.reduce =>
      rw [Binding.eq_of_name hLabel.1, Binding.eq_of_name hLabel.2, hParts.1, hParts.2.1, hParts.2.2]

/-- The outlines of expressions of which each can be told from what follows it can be told from what
follows them. -/
theorem outlines_inj {es es' : List Expr} {depth : Nat} {rest rest' : List String}
    (hLength : es.length = es'.length)
    (hEach : ∀ e ∈ es, ∀ e' ∈ es', ∀ rest rest' : List String,
      e.outline depth ++ rest = e'.outline depth ++ rest' →
        e.bare.anonymous = e'.bare.anonymous ∧ rest = rest')
    (h : es.flatMap (·.outline depth) ++ rest = es'.flatMap (·.outline depth) ++ rest') :
    es.map (·.bare.anonymous) = es'.map (·.bare.anonymous) ∧ rest = rest' := by
  induction es generalizing es' with
  | nil =>
      cases es' with
      | nil => exact ⟨rfl, h⟩
      | cons e' es' => cases hLength
  | cons e es ih =>
      cases es' with
      | nil => cases hLength
      | cons e' es' =>
          simp only [List.flatMap_cons, List.append_assoc] at h
          obtain ⟨hFirst, hMore⟩ := hEach e List.mem_cons_self e' List.mem_cons_self _ _ h
          obtain ⟨hOthers, hRest⟩ := ih (Nat.succ.inj hLength)
            (fun d hd d' hd' => hEach d (.tail e hd) d' (.tail e' hd')) hMore
          exact ⟨by simp only [List.map_cons, hFirst, hOthers], hRest⟩

/-- The outline of an expression shows where it ends and, up to places and variables, which one it
is. -/
theorem outline_inj (he : e.Printable) (he' : e'.Printable) {depth : Nat} {rest rest' : List String}
    (h : e.outline depth ++ rest = e'.outline depth ++ rest') :
    e.bare.anonymous = e'.bare.anonymous ∧ rest = rest' := by
  induction e using induct_parts generalizing e' depth rest rest' with
  | h e ih =>
      rw [outline_eq e, outline_eq e', List.cons_append, List.cons_append] at h
      obtain ⟨hHead, hBelow⟩ := List.cons.inj h
      obtain ⟨hLabel, hMark⟩ := label_eq_of_words
        (headLine_inj he.plain_words he'.plain_words e.words_ne_nil e'.words_ne_nil hHead)
      have hLength := length_parts_of_label hLabel
      have hClosed : e.parts.isEmpty = e'.parts.isEmpty := by
        rw [Bool.eq_iff_iff, List.isEmpty_iff_length_eq_zero, List.isEmpty_iff_length_eq_zero, hLength]
      rw [hClosed, List.append_assoc, List.append_assoc] at hBelow
      obtain ⟨hParts, hRest⟩ := outlines_inj hLength (fun p hp p' hp' _ _ hOutline =>
        ih p hp (he.parts p hp) (he'.parts p' hp') hOutline) hBelow
      exact ⟨eq_of_label hLabel hMark he he' hParts, List.append_cancel_left hRest⟩

/-- The lines of an expression are lines. -/
theorem newline_notMem_outline (he : e.Printable) {depth : Nat} {text : String}
    (h : text ∈ e.outline depth) : '\n' ∉ text.toList := by
  induction e using induct_parts generalizing depth with
  | h e ih =>
      rw [outline_eq, List.mem_cons, List.mem_append, List.mem_flatMap] at h
      rcases h with rfl | ⟨p, hp, hText⟩ | hClose
      · exact newline_notMem_headLine he.plain_words _ _
      · exact ih p hp (he.parts p hp) hText
      · have hLine : text = line depth ")" := by
          split at hClose
          · cases hClose
          · exact List.mem_singleton.mp hClose
        rw [hLine]
        exact newline_notMem_line (by decide)

end Expr

namespace Statement

/-- All names of the statement are words, and its floats are numbers. -/
def Printable : Statement → Prop
  | assign _ target value => Plain target.name ∧ value.Printable
  | out _ value => value.Printable
  | print _ _ => True

variable {s s' : Statement}

theorem outline_ne_nil (s : Statement) : s.outline ≠ [] := by
  cases s <;> simp [outline, node, leaf]

theorem newline_notMem_outline (hs : s.Printable) {text : String} (h : text ∈ s.outline) :
    '\n' ∉ text.toList := by
  have hNode {header : String} {value : Expr} (hHeader : '\n' ∉ header.toList)
      (hValue : value.Printable) (hText : text ∈ node 0 header (value.outline 1)) :
      '\n' ∉ text.toList := by
    rw [node, List.cons_append, List.mem_cons, List.mem_append, List.mem_singleton] at hText
    rcases hText with rfl | hBelow | rfl
    · exact newline_notMem_line (by simpa using hHeader)
    · exact Expr.newline_notMem_outline hValue hBelow
    · exact newline_notMem_line (by decide)
  cases s with
  | assign span target value =>
      have hName : '\n' ∉ target.name.toList := fun hLine => absurd (hs.1 '\n' hLine) (by decide)
      exact hNode (by simpa using hName) hs.2 h
  | out span value => exact hNode (by decide) hs h
  | print span content =>
      rw [outline, leaf, List.mem_singleton] at h
      rw [h]
      exact newline_notMem_line (by simpa using Text.newline_notMem_quoted content)

theorem outline_inj (hs : s.Printable) (hs' : s'.Printable) {rest rest' : List String}
    (h : s.outline ++ rest = s'.outline ++ rest') :
    s.bare.anonymous = s'.bare.anonymous ∧ rest = rest' := by
  -- The second character of the first line tells the three kinds of statements apart.
  have hKind := congrArg (fun lines : List String => lines.head?.map fun text => text.toList[1]?) h
  cases s <;> cases s' <;> simp [outline, node, leaf, line] at hKind
  case assign.assign span target value span' target' value' =>
      obtain ⟨hHeader, hBelow⟩ := node_inj h
      obtain ⟨hValue, hRest⟩ := Expr.outline_inj hs.2 hs'.2 hBelow
      have hTarget := Binding.eq_of_name ((String.append_right_inj _).mp hHeader)
      exact ⟨by simp only [bare, anonymous, hTarget, hValue], List.tail_eq_of_cons_eq hRest⟩
  case out.out span value span' value' =>
      obtain ⟨-, hBelow⟩ := node_inj h
      obtain ⟨hValue, hRest⟩ := Expr.outline_inj hs hs' hBelow
      exact ⟨by simp only [bare, anonymous, hValue], List.tail_eq_of_cons_eq hRest⟩
  case print.print span content span' content' =>
      obtain ⟨hLine, hRest⟩ := List.cons.inj h
      have hQuoted := (String.append_left_inj _).mp (line_inj hLine)
      have hContent := Text.quoted_inj ((String.append_right_inj _).mp
        ((String.append_right_inj _).mp hQuoted))
      exact ⟨by simp only [bare, anonymous, hContent], hRest⟩

end Statement

/-- Lines can be told from the text that they make up. -/
theorem lines_inj {xs ys : List String} (hx : ∀ x ∈ xs, '\n' ∉ x.toList)
    (hy : ∀ y ∈ ys, '\n' ∉ y.toList)
    (h : String.join (xs.map (· ++ "\n")) = String.join (ys.map (· ++ "\n"))) : xs = ys := by
  have hChars := congrArg String.toList h
  simp only [String.toList_join, List.flatMap_map, String.toList_append] at hChars
  clear h
  induction xs generalizing ys with
  | nil =>
      cases ys with
      | nil => rfl
      | cons y ys => simp at hChars
  | cons x xs ih =>
      cases ys with
      | nil => simp at hChars
      | cons y ys =>
          rw [List.forall_mem_cons] at hx hy
          simp only [List.flatMap_cons, List.append_assoc] at hChars
          obtain ⟨hFirst, hRest⟩ := append_inj_at hx.1 hy.1 hChars
          rw [String.toList_injective hFirst, ih hx.2 hy.2 hRest]

theorem flatMap_outline_inj {one two : List Statement} (hOne : ∀ s ∈ one, s.Printable)
    (hTwo : ∀ s ∈ two, s.Printable)
    (h : one.flatMap Statement.outline = two.flatMap Statement.outline) :
    one.map (·.bare.anonymous) = two.map (·.bare.anonymous) := by
  have hNonempty (s : Statement) (rest : List String) : s.outline ++ rest ≠ [] :=
    List.append_ne_nil_of_left_ne_nil s.outline_ne_nil rest
  induction one generalizing two with
  | nil =>
      cases two with
      | nil => rfl
      | cons s' two => exact absurd h.symm (hNonempty s' _)
  | cons s one ih =>
      cases two with
      | nil => exact absurd h (hNonempty s _)
      | cons s' two =>
          rw [List.forall_mem_cons] at hOne hTwo
          obtain ⟨hFirst, hRest⟩ := s.outline_inj hOne.1 hTwo.1 h
          rw [List.map_cons, List.map_cons, hFirst, ih hOne.2 hTwo.2 hRest]

/-- Two lists of statements with one outline are the same, up to places and variables. -/
theorem outline_inj {one two : List Statement} (hOne : ∀ s ∈ one, s.Printable)
    (hTwo : ∀ s ∈ two, s.Printable) (h : outline one = outline two) :
    one.map (·.bare.anonymous) = two.map (·.bare.anonymous) := by
  have hLines {statements : List Statement} (hAll : ∀ s ∈ statements, s.Printable) :
      ∀ text ∈ statements.flatMap Statement.outline, '\n' ∉ text.toList := by
    intro text hText
    obtain ⟨s, hs, hMem⟩ := List.mem_flatMap.mp hText
    exact Statement.newline_notMem_outline (hAll s hs) hMem
  exact flatMap_outline_inj hOne hTwo (lines_inj (hLines hOne) (hLines hTwo) h)

end Progression
