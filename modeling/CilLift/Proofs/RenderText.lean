import CilLift.Expr.Render
import CilLift.Proofs.Words
import Mathlib.Data.List.Nodup
import Mathlib.Tactic.SplitIfs

/-! # What rendered operators tell

    The text of an expression that is built from names, numbers, strings and
    operators can be taken apart in one way only. Every part of it shows where
    it ends: names and numbers end where a character follows that is not part of
    a word, a string ends at the first quote that is not escaped, and everything
    else is enclosed in parentheses or is an operator in front of such a part.

    Main statements: `quoted_append_inj` says that string literals can be read
    back whatever they contain, `OperatorTree.readsBack` says that an operator
    tree can be taken off the front of a text in one way only, and
    `render_eq_iff` says that two operator trees have the same text exactly if
    they differ at most in types that are not shown.
-/

namespace CilLift

/-! ## String literals -/

namespace Text

/-- The characters with a short form and the letters of these forms. -/
def shortForms : List (Char × Char) :=
  [('\t', 't'), ('\r', 'r'), ('\n', 'n'), ('\'', '\''), ('"', '"'), ('\\', '\\')]

theorem mem_shortForms_of_shortEscape? {c letter : Char} (h : shortEscape? c = some letter) :
    (c, letter) ∈ shortForms := by
  unfold shortEscape? at h
  split_ifs at h with htab hreturn hfeed hquote
  · cases h
    rw [htab]
    decide
  · cases h
    rw [hreturn]
    decide
  · cases h
    rw [hfeed]
    decide
  · cases h
    rcases hquote with rfl | rfl | rfl <;> decide

/-- A letter stands for one character. -/
theorem shortForms_inj {c d letter : Char} (hc : (c, letter) ∈ shortForms)
    (hd : (d, letter) ∈ shortForms) : c = d := by
  have h : ∀ p ∈ shortForms, ∀ q ∈ shortForms, p.2 = q.2 → p.1 = q.1 := by decide
  exact h _ hc _ hd rfl

/-- No letter is that of a code point. -/
theorem letter_ne_of_mem_shortForms {c letter : Char} (hc : (c, letter) ∈ shortForms) :
    letter ≠ 'u' := by
  have h : ∀ p ∈ shortForms, p.2 ≠ 'u' := by decide
  exact h _ hc

/-- A character is written with a backslash and a letter, as itself, or as its
    code point. -/
theorem escapeChar_cases (c : Char) :
    (∃ letter, (c, letter) ∈ shortForms ∧ escapeChar c = ['\\', letter]) ∨
      (c ≠ '\\' ∧ c ≠ '"' ∧ escapeChar c = [c]) ∨
      escapeChar c = '\\' :: 'u' :: '\x7b' :: (hexDigits c.toNat ++ ['\x7d']) := by
  cases hshort : shortEscape? c with
  | some letter =>
    refine .inl ⟨letter, mem_shortForms_of_shortEscape? hshort, ?_⟩
    simp only [escapeChar, hshort]
  | none =>
    right
    by_cases hprintable : isPrintable c = true
    · left
      refine ⟨?_, ?_, ?_⟩
      · rintro rfl
        cases hshort
      · rintro rfl
        cases hshort
      · simp only [escapeChar, hshort, if_pos hprintable]
    · right
      simp only [escapeChar, hshort, if_neg hprintable, codePointEscape, List.cons_append]

/-- A written character tells which one it is and where the next one starts. -/
theorem escapeChar_append_inj {c d : Char} {rest rest' : List Char}
    (h : escapeChar c ++ rest = escapeChar d ++ rest') : c = d ∧ rest = rest' := by
  rcases escapeChar_cases c with ⟨letter, hc, hwritten⟩ | ⟨hslash, -, hwritten⟩ | hwritten <;>
    rcases escapeChar_cases d with ⟨letter', hd, hwritten'⟩ | ⟨hslash', -, hwritten'⟩ | hwritten' <;>
    rw [hwritten, hwritten'] at h <;>
    simp only [List.cons_append, List.nil_append, List.append_assoc, List.cons.injEq, true_and] at h
  · obtain ⟨rfl, hrest⟩ := h
    exact ⟨shortForms_inj hc hd, hrest⟩
  · exact absurd h.1.symm hslash'
  · exact absurd h.1 (letter_ne_of_mem_shortForms hc)
  · exact absurd h.1 hslash
  · exact h
  · exact absurd h.1 hslash
  · exact absurd h.1.symm (letter_ne_of_mem_shortForms hd)
  · exact absurd h.1.symm hslash'
  · -- Two code points end at the brace that closes them.
    have hword : ∀ n, ∀ x ∈ hexDigits n, x.isAlphanum = true :=
      fun n x => isAlphanum_of_mem_hexDigits
    obtain ⟨hdigits, hbrace⟩ := word_append_inj (hword c.toNat) (hword d.toNat)
      (ends_cons rfl _) (ends_cons rfl _) h
    exact ⟨Char.toNat_inj.mp (hexDigits_injective hdigits), (List.cons.inj hbrace).2⟩

/-- No written character starts with a double quote. -/
theorem escapeChar_append_ne_quote (c : Char) (rest rest' : List Char) :
    escapeChar c ++ rest ≠ '"' :: rest' := by
  intro h
  rcases escapeChar_cases c with ⟨letter, -, hwritten⟩ | ⟨-, hquote, hwritten⟩ | hwritten
  · rw [hwritten] at h
    exact absurd (List.cons.inj h).1 (by decide)
  · rw [hwritten] at h
    exact hquote (List.cons.inj h).1
  · rw [hwritten] at h
    exact absurd (List.cons.inj h).1 (by decide)

theorem flatMap_escapeChar_append_inj {cs ds rest rest' : List Char}
    (h : cs.flatMap escapeChar ++ '"' :: rest = ds.flatMap escapeChar ++ '"' :: rest') :
    cs = ds ∧ rest = rest' := by
  induction cs generalizing ds with
  | nil =>
    cases ds with
    | nil => exact ⟨rfl, (List.cons.inj h).2⟩
    | cons d ds =>
      rw [List.flatMap_cons, List.append_assoc] at h
      exact absurd h.symm (escapeChar_append_ne_quote d _ _)
  | cons c cs ih =>
    rw [List.flatMap_cons, List.append_assoc] at h
    cases ds with
    | nil => exact absurd h (escapeChar_append_ne_quote c _ _)
    | cons d ds =>
      rw [List.flatMap_cons, List.append_assoc] at h
      obtain ⟨rfl, hlater⟩ := escapeChar_append_inj h
      obtain ⟨rfl, hrest⟩ := ih hlater
      exact ⟨rfl, hrest⟩

/-- A string literal can be read back whatever it contains and whatever follows
    it. -/
theorem quoted_append_inj {s t : String} {rest rest' : List Char}
    (h : (quoted s).toList ++ rest = (quoted t).toList ++ rest') : s = t ∧ rest = rest' := by
  have hliteral : ∀ (text : String) (rest : List Char), (quoted text).toList ++ rest =
      '"' :: (text.toList.flatMap escapeChar ++ '"' :: rest) := by
    intro text rest
    simp [quoted]
  rw [hliteral, hliteral] at h
  obtain ⟨htext, hrest⟩ := flatMap_escapeChar_append_inj (List.cons.inj h).2
  exact ⟨String.toList_inj.mp htext, hrest⟩

/-! ## Words of a rendered tree -/

/-- Letters. All characters outside ASCII count as letters, so that no alphabet
    is left out. -/
def isLetter (c : Char) : Bool :=
  c.isAlpha || 0x80 ≤ c.toNat

/-- Letters, digits and the underscore. -/
def isWordChar (c : Char) : Bool :=
  isLetter c || c = '_' || c.isDigit

/-- Names that start with a letter or an underscore and go on with letters,
    digits and underscores. -/
def isIdentifier (name : String) : Bool :=
  match name.toList with
  | [] => false
  | first :: rest => (isLetter first || first = '_') && rest.all isWordChar

/-- The text does not go on, or with a blank, a closing parenthesis or a
    comma. -/
def Follows (rest : List Char) : Prop :=
  ∀ c ∈ rest.head?, c = ' ' ∨ c = ')' ∨ c = ','

theorem follows_nil : Follows [] := by
  intro c hc
  cases hc

theorem follows_cons {c : Char} (h : c = ' ' ∨ c = ')' ∨ c = ',') (rest : List Char) :
    Follows (c :: rest) := by
  intro d hd
  cases hd
  exact h

theorem Follows.ends {rest : List Char} (h : Follows rest) : Ends isWordChar rest := by
  intro c hc
  rcases h c hc with rfl | rfl | rfl <;> decide

/-- No letter is a digit. -/
theorem isDigit_eq_false_of_isLetter {c : Char} (h : isLetter c = true) : c.isDigit = false := by
  rw [Bool.eq_false_iff]
  intro hdigit
  -- No character up to the last digit is a letter.
  have hbelow : ∀ n < 58, isLetter (Char.ofNat n) = false := by decide
  have hnine : c.toNat ≤ '9'.toNat := (Char.isDigit_iff_toNat.mp hdigit).2
  have hnot := hbelow c.toNat (Nat.lt_succ_of_le hnine)
  rw [Char.ofNat_toNat, h] at hnot
  cases hnot

theorem isWordChar_of_isIdentifier {name : String} (h : isIdentifier name = true) :
    ∀ c ∈ name.toList, isWordChar c = true := by
  unfold isIdentifier at h
  split at h
  · cases h
  · rename_i first rest hname
    rw [Bool.and_eq_true] at h
    rw [hname]
    refine List.forall_mem_cons.mpr ⟨?_, List.all_eq_true.mp h.2⟩
    rw [isWordChar, h.1, Bool.true_or]

end Text

/-! ## Operators and targets of conversions -/

open Text

namespace BinaryOp

/-- Every operator once. -/
def all : List BinaryOp :=
  [.add, .subtract, .multiply, .divide, .modulo, .and, .or, .exclusiveOr, .leftShift, .rightShift,
    .equal, .notEqual, .greaterThan, .lessThan]

theorem mem_all (op : BinaryOp) : op ∈ all := by
  cases op <;> decide

/-- An operator ends at the blank behind it. -/
theorem ne_blank_of_mem_symbol (op : BinaryOp) : ∀ c ∈ op.symbol.toList, (c != ' ') = true := by
  have h : all.all (fun op => op.symbol.toList.all (· != ' ')) = true := by decide +kernel
  exact List.all_eq_true.mp (List.all_eq_true.mp h op (mem_all op))

theorem symbol_append_inj {op op' : BinaryOp} {rest rest' : List Char}
    (h : op.symbol.toList ++ ' ' :: rest = op'.symbol.toList ++ ' ' :: rest') :
    op = op' ∧ rest = rest' := by
  have hnodup : (all.map symbol).Nodup := by decide +kernel
  obtain ⟨hsymbol, hrest⟩ := word_append_inj op.ne_blank_of_mem_symbol op'.ne_blank_of_mem_symbol
    (ends_cons rfl _) (ends_cons rfl _) h
  exact ⟨List.inj_on_of_nodup_map hnodup (mem_all op) (mem_all op') (String.toList_inj.mp hsymbol),
    (List.cons.inj hrest).2⟩

/-- No operator is taken for the word of a tentative conversion. -/
theorem symbol_append_ne_as (op : BinaryOp) (rest rest' : List Char) :
    op.symbol.toList ++ ' ' :: rest ≠ "as".toList ++ ' ' :: rest' := by
  intro h
  have has : "as".toList.all (· != ' ') = true := by decide +kernel
  have hnot : "as" ∉ all.map symbol := by decide +kernel
  obtain ⟨hsymbol, -⟩ := word_append_inj op.ne_blank_of_mem_symbol (List.all_eq_true.mp has)
    (ends_cons rfl _) (ends_cons rfl _) h
  exact hnot (List.mem_map.mpr ⟨op, mem_all op, String.toList_inj.mp hsymbol⟩)

end BinaryOp

/-- A primitive type ends at the parenthesis behind it. -/
theorem Primitive.name_append_inj {p q : Primitive} {rest rest' : List Char}
    (h : p.name.toList ++ ')' :: rest = q.name.toList ++ ')' :: rest') : p = q ∧ rest = rest' := by
  have hnodup : (all.map name).Nodup := by decide +kernel
  have hword : all.all (fun p => p.name.toList.all isWordChar) = true := by decide +kernel
  have hname : ∀ p : Primitive, ∀ c ∈ p.name.toList, isWordChar c = true := by
    intro p
    exact List.all_eq_true.mp (List.all_eq_true.mp hword p (mem_all p))
  obtain ⟨hnames, hrest⟩ := word_append_inj (hname p) (hname q) (ends_cons rfl _)
    (ends_cons rfl _) h
  exact ⟨List.inj_on_of_nodup_map hnodup (mem_all p) (mem_all q) (String.toList_inj.mp hnames),
    (List.cons.inj hrest).2⟩

/-! ## Operator trees -/

namespace Expr

/-- Expressions of names, numbers that are not negative, strings, and operators
    on them; conversions are to primitive types. -/
inductive OperatorTree : Expr → Prop where
  | parameter (p : Param) (hname : isIdentifier p.name = true) : OperatorTree (.parameter p)
  | number (n : Int32) (type : Ty) (hsign : 0 ≤ n.toInt) : OperatorTree (.constant (.int32 n) type)
  | string (text : String) (type : Ty) : OperatorTree (.constant (.string text) type)
  | binary (op : BinaryOp) (left right : Expr) (type : Ty) (hleft : OperatorTree left)
    (hright : OperatorTree right) : OperatorTree (.binary op left right type)
  | negate (operand : Expr) (type : Ty) (hoperand : OperatorTree operand) :
    OperatorTree (.unary .negate operand type)
  | not (operand : Expr) (type : Ty) (hoperand : OperatorTree operand) :
    OperatorTree (.unary .not operand type)
  | convert (operand : Expr) (target : Primitive) (hoperand : OperatorTree operand) :
    OperatorTree (.unary .convert operand (.prim target))
  | typeAs (operand : Expr) (target : Primitive) (hoperand : OperatorTree operand) :
    OperatorTree (.unary .typeAs operand (.prim target))

/-- Trees with the same shape, operators, names, values and targets of
    conversions. Only types that are not shown may differ. -/
inductive Alike : Expr → Expr → Prop where
  | parameter (name : String) (type type' : Ty) :
    Alike (.parameter ⟨name, type⟩) (.parameter ⟨name, type'⟩)
  | constant (value : Value) (type type' : Ty) : Alike (.constant value type) (.constant value type')
  | binary (op : BinaryOp) {left left' right right' : Expr} (type type' : Ty)
    (hleft : Alike left left') (hright : Alike right right') :
    Alike (.binary op left right type) (.binary op left' right' type')
  | negate {operand operand' : Expr} (type type' : Ty) (hoperand : Alike operand operand') :
    Alike (.unary .negate operand type) (.unary .negate operand' type')
  | not {operand operand' : Expr} (type type' : Ty) (hoperand : Alike operand operand') :
    Alike (.unary .not operand type) (.unary .not operand' type')
  | convert {operand operand' : Expr} (target : Ty) (hoperand : Alike operand operand') :
    Alike (.unary .convert operand target) (.unary .convert operand' target)
  | typeAs {operand operand' : Expr} (target : Ty) (hoperand : Alike operand operand') :
    Alike (.unary .typeAs operand target) (.unary .typeAs operand' target)

theorem Alike.render_eq {a b : Expr} (h : Alike a b) : a.render = b.render := by
  induction h with
  | parameter | constant => rfl
  | binary op type type' hleft hright ihleft ihright => simp only [render, ihleft, ihright]
  | negate _ _ _ ih | not _ _ _ ih | convert _ _ ih | typeAs _ _ ih => simp only [render, ih]

/-- Operators that are written as one character in front of their operand. -/
inductive Sign : UnaryOp → Char → Prop where
  | negate : Sign .negate '-'
  | not : Sign .not '~'

namespace Sign

variable {op : UnaryOp} {sign : Char} {operand operand' : Expr}

theorem operatorTree (h : Sign op sign) (type : Ty) (hoperand : OperatorTree operand) :
    OperatorTree (.unary op operand type) := by
  cases h with
  | negate => exact .negate operand type hoperand
  | not => exact .not operand type hoperand

theorem alike (h : Sign op sign) (type type' : Ty) (hoperand : Alike operand operand') :
    Alike (.unary op operand type) (.unary op operand' type') := by
  cases h with
  | negate => exact .negate type type' hoperand
  | not => exact .not type type' hoperand

end Sign

/-! ### Texts in front of others -/

/-- The text of the expression in front of another text. -/
def inFront (e : Expr) (rest : List Char) : List Char :=
  e.render.toList ++ rest

section InFront

variable (rest : List Char)

theorem inFront_binary (op : BinaryOp) (left right : Expr) (type : Ty) :
    (Expr.binary op left right type).inFront rest =
      '(' :: left.inFront (' ' :: (op.symbol.toList ++ ' ' :: right.inFront (')' :: rest))) := by
  simp [inFront, render]

theorem inFront_signed {op : UnaryOp} {sign : Char} (h : Sign op sign) (operand : Expr)
    (type : Ty) : (Expr.unary op operand type).inFront rest = sign :: operand.inFront rest := by
  cases h with
  | negate | not => simp [inFront, render]

theorem inFront_convert (operand : Expr) (target : Primitive) :
    (Expr.unary .convert operand (.prim target)).inFront rest =
      "Convert".toList ++ '(' ::
        operand.inFront (',' :: ' ' :: (target.name.toList ++ ')' :: rest)) := by
  simp [inFront, render, Ty.name]

theorem inFront_typeAs (operand : Expr) (target : Primitive) :
    (Expr.unary .typeAs operand (.prim target)).inFront rest =
      '(' :: operand.inFront
        (' ' :: ("as".toList ++ ' ' :: (target.name.toList ++ ')' :: rest))) := by
  simp [inFront, render, Ty.name]

end InFront

/-! ### First characters -/

/-- What the first character of a text tells about the tree it belongs to. -/
inductive Lead where
  | word | digit | quote | parenthesis | minus | tilde

/-- What a first character tells. -/
def Lead.ofChar (c : Char) : Lead :=
  if c.isDigit then .digit
  else if c = '"' then .quote
  else if c = '(' then .parenthesis
  else if c = '-' then .minus
  else if c = '~' then .tilde
  else .word

/-- What the first character of an operator tree has to tell. -/
def lead : Expr → Lead
  | .constant (.int32 _) _ => .digit
  | .constant _ _ => .quote
  | .binary .. => .parenthesis
  | .unary .negate _ _ => .minus
  | .unary .not _ _ => .tilde
  | .unary .typeAs _ _ => .parenthesis
  | _ => .word

theorem Lead.ofChar_of_isLetter {c : Char} (h : isLetter c = true ∨ c = '_') :
    Lead.ofChar c = .word := by
  rcases h with hletter | rfl
  · have hdigit := isDigit_eq_false_of_isLetter hletter
    have hne : ∀ d, isLetter d = false → c ≠ d := by
      rintro d hd rfl
      rw [hletter] at hd
      cases hd
    simp only [ofChar, hdigit, hne '"' rfl, hne '(' rfl, hne '-' rfl, hne '~' rfl, if_false]
    rfl
  · rfl

theorem exists_lead {e : Expr} (h : OperatorTree e) (rest : List Char) :
    ∃ c tail, e.inFront rest = c :: tail ∧ Lead.ofChar c = e.lead := by
  cases h with
  | parameter p hname =>
    unfold isIdentifier at hname
    split at hname
    · cases hname
    · rename_i first others hlist
      rw [Bool.and_eq_true, Bool.or_eq_true, decide_eq_true_eq] at hname
      refine ⟨first, others ++ rest, ?_, Lead.ofChar_of_isLetter hname.1⟩
      rw [inFront, render, hlist, List.cons_append]
  | number n type hsign =>
    have hdigits : (toString n.toInt).toList = Nat.toDigits 10 n.toInt.toNat := by
      rw [toString_of_nonneg hsign, toList_toString_nat]
    have hne : Nat.toDigits 10 n.toInt.toNat ≠ [] := Nat.toDigits_ne_nil
    obtain ⟨c, others, hlist⟩ := List.exists_cons_of_ne_nil hne
    have hc : c.isDigit = true :=
      Nat.isDigit_of_mem_toDigits (by omega) (by omega) (hlist ▸ List.mem_cons_self)
    refine ⟨c, others ++ rest, ?_, ?_⟩
    · rw [inFront, render, Value.render, hdigits, hlist, List.cons_append]
    · rw [Lead.ofChar, if_pos hc]
      rfl
  | string text type => exact ⟨'"', _, by simp [inFront, render, Value.render, quoted]; rfl, rfl⟩
  | binary op left right type => exact ⟨'(', _, inFront_binary rest op left right type, rfl⟩
  | negate operand type => exact ⟨'-', _, inFront_signed rest .negate operand type, rfl⟩
  | not operand type => exact ⟨'~', _, inFront_signed rest .not operand type, rfl⟩
  | convert operand target => exact ⟨'C', _, inFront_convert rest operand target, rfl⟩
  | typeAs operand target => exact ⟨'(', _, inFront_typeAs rest operand target, rfl⟩

/-- Operator trees whose texts start alike are of kinds that start alike. -/
theorem lead_eq {a b : Expr} (ha : OperatorTree a) (hb : OperatorTree b) {rest rest' : List Char}
    (h : a.inFront rest = b.inFront rest') : a.lead = b.lead := by
  obtain ⟨c, tail, hfirst, hlead⟩ := exists_lead ha rest
  obtain ⟨d, tail', hfirst', hlead'⟩ := exists_lead hb rest'
  rw [hfirst, hfirst'] at h
  rw [← hlead, ← hlead', (List.cons.inj h).1]

/-- Only the operator itself starts with its sign. -/
theorem Sign.eq_unary {op : UnaryOp} {sign : Char} (h : Sign op sign) {operand b : Expr} {type : Ty}
    (hb : OperatorTree b) (hlead : (unary op operand type).lead = b.lead) :
    ∃ operand' type', b = unary op operand' type' ∧ OperatorTree operand' := by
  cases h with
  | negate | not =>
    cases hb with
    | negate operand' type' hoperand' | not operand' type' hoperand' =>
      -- The other operator has another sign.
      first
      | exact ⟨operand', type', rfl, hoperand'⟩
      | cases hlead
    | _ => cases hlead

/-! ### Taking a text apart -/

/-- A name is not taken for the word of a conversion, which goes on with a
    parenthesis. -/
theorem name_append_ne_convert {name : String} {rest rest' : List Char}
    (hname : isIdentifier name = true) (hrest : Follows rest) :
    name.toList ++ rest ≠ "Convert".toList ++ '(' :: rest' := by
  intro h
  have hconvert : "Convert".toList.all isWordChar = true := by decide +kernel
  obtain ⟨-, rfl⟩ := word_append_inj (isWordChar_of_isIdentifier hname)
    (List.all_eq_true.mp hconvert) hrest.ends (ends_cons rfl _) h
  rcases hrest '(' rfl with hc | hc | hc <;> exact absurd hc (by decide)

theorem number_append_inj {n n' : Int32} {rest rest' : List Char} (hsign : 0 ≤ n.toInt)
    (hsign' : 0 ≤ n'.toInt) (hrest : Follows rest) (hrest' : Follows rest')
    (h : (toString n.toInt).toList ++ rest = (toString n'.toInt).toList ++ rest') :
    n = n' ∧ rest = rest' := by
  have hdigits : ∀ {m : Int}, 0 ≤ m → ∀ c ∈ (toString m).toList, isWordChar c = true := by
    intro m hm c hc
    rw [toString_of_nonneg hm] at hc
    rw [isWordChar, isDigit_of_mem_toString hc, Bool.or_true]
  obtain ⟨htext, hrest⟩ := word_append_inj (hdigits hsign) (hdigits hsign') hrest.ends hrest'.ends h
  have hnumber : toString n.toInt = toString n'.toInt := String.toList_inj.mp htext
  exact ⟨Int32.toInt_inj.mp (toString_int_injective hnumber), hrest⟩

/-- The tree can be taken off the front of a text in one way only. -/
def ReadsBack (a : Expr) : Prop :=
  ∀ ⦃b : Expr⦄ ⦃rest rest' : List Char⦄, OperatorTree b → Follows rest → Follows rest' →
    a.inFront rest = b.inFront rest' → Alike a b ∧ rest = rest'

theorem readsBack_parameter {p : Param} (hname : isIdentifier p.name = true) :
    ReadsBack (.parameter p) := by
  intro b rest rest' hb hrest hrest' h
  have hlead := lead_eq (.parameter p hname) hb h
  cases hb with
  | parameter q hname' =>
    obtain ⟨hnames, hend⟩ := word_append_inj (isWordChar_of_isIdentifier hname)
      (isWordChar_of_isIdentifier hname') hrest.ends hrest'.ends h
    obtain ⟨name, type⟩ := p
    obtain ⟨name', type'⟩ := q
    obtain rfl : name = name' := String.toList_inj.mp hnames
    exact ⟨.parameter name type type', hend⟩
  | convert operand target =>
    rw [inFront_convert] at h
    exact absurd h (name_append_ne_convert hname hrest)
  -- Trees of the other kinds start with other characters.
  | _ => cases hlead

theorem readsBack_number {n : Int32} (hsign : 0 ≤ n.toInt) (type : Ty) :
    ReadsBack (.constant (.int32 n) type) := by
  intro b rest rest' hb hrest hrest' h
  have hlead := lead_eq (.number n type hsign) hb h
  cases hb with
  | number n' type' hsign' =>
    obtain ⟨rfl, hend⟩ := number_append_inj hsign hsign' hrest hrest' h
    exact ⟨.constant _ type type', hend⟩
  | _ => cases hlead

theorem readsBack_string (text : String) (type : Ty) :
    ReadsBack (.constant (.string text) type) := by
  intro b rest rest' hb _ _ h
  have hlead := lead_eq (.string text type) hb h
  cases hb with
  | string text' type' =>
    obtain ⟨rfl, hend⟩ := quoted_append_inj h
    exact ⟨.constant _ type type', hend⟩
  | _ => cases hlead

theorem readsBack_binary {op : BinaryOp} {left right : Expr} {type : Ty}
    (ha : OperatorTree (.binary op left right type)) (hleft : ReadsBack left)
    (hright : ReadsBack right) : ReadsBack (.binary op left right type) := by
  intro b rest rest' hb _ _ h
  have hlead := lead_eq ha hb h
  cases hb with
  | binary op' left' right' type' hleft' hright' =>
    rw [inFront_binary, inFront_binary] at h
    obtain ⟨halike, hop⟩ := hleft hleft' (follows_cons (.inl rfl) _) (follows_cons (.inl rfl) _)
      (List.cons.inj h).2
    obtain ⟨rfl, hlater⟩ := BinaryOp.symbol_append_inj (List.cons.inj hop).2
    obtain ⟨halike', hend⟩ := hright hright' (follows_cons (.inr (.inl rfl)) _)
      (follows_cons (.inr (.inl rfl)) _) hlater
    exact ⟨.binary op type type' halike halike', (List.cons.inj hend).2⟩
  | typeAs operand target hoperand =>
    rw [inFront_binary, inFront_typeAs] at h
    -- The parenthesis does not tell the two apart, what stands behind the operand does.
    obtain ⟨-, hop⟩ := hleft hoperand (follows_cons (.inl rfl) _) (follows_cons (.inl rfl) _)
      (List.cons.inj h).2
    exact absurd (List.cons.inj hop).2 (op.symbol_append_ne_as _ _)
  | _ => cases hlead

theorem readsBack_signed {op : UnaryOp} {sign : Char} (hop : Sign op sign) {operand : Expr}
    (type : Ty) (hoperand : OperatorTree operand) (hreads : ReadsBack operand) :
    ReadsBack (.unary op operand type) := by
  intro b rest rest' hb hrest hrest' h
  have hlead := lead_eq (hop.operatorTree type hoperand) hb h
  obtain ⟨operand', type', rfl, hoperand'⟩ := hop.eq_unary hb hlead
  rw [inFront_signed rest hop, inFront_signed rest' hop] at h
  obtain ⟨halike, hend⟩ := hreads hoperand' hrest hrest' (List.cons.inj h).2
  exact ⟨hop.alike type type' halike, hend⟩

theorem readsBack_convert {operand : Expr} {target : Primitive}
    (ha : OperatorTree (.unary .convert operand (.prim target))) (hreads : ReadsBack operand) :
    ReadsBack (.unary .convert operand (.prim target)) := by
  intro b rest rest' hb _ hrest' h
  have hlead := lead_eq ha hb h
  cases hb with
  | parameter q hname' =>
    rw [inFront_convert] at h
    exact absurd h.symm (name_append_ne_convert hname' hrest')
  | convert operand' target' hoperand' =>
    rw [inFront_convert, inFront_convert] at h
    have hinside := (List.cons.inj (List.append_cancel_left h)).2
    obtain ⟨halike, hblank⟩ := hreads hoperand' (follows_cons (.inr (.inr rfl)) _)
      (follows_cons (.inr (.inr rfl)) _) hinside
    have htarget := (List.cons.inj (List.cons.inj hblank).2).2
    obtain ⟨rfl, hend⟩ := Primitive.name_append_inj htarget
    exact ⟨.convert _ halike, hend⟩
  | _ => cases hlead

theorem readsBack_typeAs {operand : Expr} {target : Primitive}
    (ha : OperatorTree (.unary .typeAs operand (.prim target))) (hreads : ReadsBack operand) :
    ReadsBack (.unary .typeAs operand (.prim target)) := by
  intro b rest rest' hb _ _ h
  have hlead := lead_eq ha hb h
  cases hb with
  | binary op left right type hleft hright =>
    rw [inFront_typeAs, inFront_binary] at h
    obtain ⟨-, hop⟩ := hreads hleft (follows_cons (.inl rfl) _) (follows_cons (.inl rfl) _)
      (List.cons.inj h).2
    exact absurd (List.cons.inj hop).2.symm (op.symbol_append_ne_as _ _)
  | typeAs operand' target' hoperand' =>
    rw [inFront_typeAs, inFront_typeAs] at h
    obtain ⟨halike, hword⟩ := hreads hoperand' (follows_cons (.inl rfl) _)
      (follows_cons (.inl rfl) _) (List.cons.inj h).2
    have htarget := (List.cons.inj (List.append_cancel_left (List.cons.inj hword).2)).2
    obtain ⟨rfl, hend⟩ := Primitive.name_append_inj htarget
    exact ⟨.typeAs _ halike, hend⟩
  | _ => cases hlead

/-- Every operator tree can be taken off the front of a text in one way only. -/
theorem OperatorTree.readsBack {a : Expr} (ha : OperatorTree a) : ReadsBack a := by
  induction ha with
  | parameter p hname => exact readsBack_parameter hname
  | number n type hsign => exact readsBack_number hsign type
  | string text type => exact readsBack_string text type
  | binary op left right type hleft hright ihleft ihright =>
    exact readsBack_binary (.binary op left right type hleft hright) ihleft ihright
  | negate operand type hoperand ih => exact readsBack_signed .negate type hoperand ih
  | not operand type hoperand ih => exact readsBack_signed .not type hoperand ih
  | convert operand target hoperand ih =>
    exact readsBack_convert (.convert operand target hoperand) ih
  | typeAs operand target hoperand ih =>
    exact readsBack_typeAs (.typeAs operand target hoperand) ih

/-- Two operator trees have the same text exactly if they have the same shape,
    operators, names, values and targets of conversions. -/
theorem render_eq_iff {a b : Expr} (ha : OperatorTree a) (hb : OperatorTree b) :
    a.render = b.render ↔ Alike a b := by
  constructor
  · intro h
    have htext : a.inFront [] = b.inFront [] := by
      rw [inFront, inFront, h]
    exact (ha.readsBack hb follows_nil follows_nil htext).1
  · exact Alike.render_eq

/-! ### A string that looks like the text around it -/

namespace Comparison

/-- A comparison with a string that contains a quote, a parenthesis, an operator,
    a backslash and a letter outside ASCII. -/
def tree (type : Ty) : Expr :=
  .unary .convert
    (.binary .equal (.unary .negate (.parameter ⟨"x", type⟩) type)
      (.unary .typeAs (.constant (.string "a\") == \\é") type) (.prim .object)) type)
    (.prim .boolean)

theorem operatorTree_tree (type : Ty) : OperatorTree (tree type) := by
  have hname : isIdentifier "x" = true := by decide +kernel
  exact .convert _ _
    (.binary _ _ _ _ (.negate _ _ (.parameter _ hname)) (.typeAs _ _ (.string _ _)))

theorem alike_of_text :
    OperatorTree (tree (.prim .int32)) ∧ OperatorTree (tree (.prim .int64)) ∧
      (tree (.prim .int32)).render =
        "Convert((-x == (\"a\\\") == \\\\\\u\x7be9\x7d\" as Object)), Boolean)" ∧
      Alike (tree (.prim .int32)) (tree (.prim .int64)) := by
  have hsmall := operatorTree_tree (.prim .int32)
  have hlarge := operatorTree_tree (.prim .int64)
  have htext : (tree (.prim .int32)).render = (tree (.prim .int64)).render := by
    decide +kernel
  exact ⟨hsmall, hlarge, by decide +kernel, (render_eq_iff hsmall hlarge).mp htext⟩

end Comparison

end Expr

end CilLift
