import CilLift.Proofs.Reading
import CilLift.Proofs.Words
import Mathlib.Data.List.Nodup

/-! # What a listing tells

    A listing is one text. It can be taken apart again: a line ends at the first
    line feed, a mnemonic at the first blank or at the end of its line, the
    mnemonics are all different, and decimal, signed and hexadecimal operands
    give back their numbers. Offsets need not be read, since they follow from
    the instructions before them.

    Floating-point operands are the exception: several bit patterns are written
    the same.

    Main statement: `listing_determines_code` says that code that is listed
    alike is the same up to its first `ret`.
-/

namespace CilLift

open Instruction (encodeAll sizeAll)
open Text (Ends ends_cons word_append_inj)

/-! ## Instructions before a `ret` -/

/-- These are the instructions before the first `ret` of the code. -/
def BeforeRet (code : List UInt8) (is : List Instruction) : Prop :=
  StartsWith code (is ++ [.ret]) ∧ ∀ i ∈ is, i.opcode ≠ .ret

/-- Whether the operand is a floating-point number. -/
def Opcode.hasFloat (o : Opcode) : Bool :=
  o = .ldcR4 || o = .ldcR8

/-- No instruction up to the first `ret` of the code has a floating-point
    operand. -/
def FloatFree (code : List UInt8) : Prop :=
  ∀ is i, StartsWith code (is ++ [i]) → (∀ j ∈ is, j.opcode ≠ .ret) → i.opcode.hasFloat = false

/-- Of two lists of instructions that the same code starts with, one goes on
    where the other ends. -/
theorem prefix_or_prefix_of_encodeAll {is js : List Instruction} {rest rest' : List UInt8}
    (h : encodeAll is ++ rest = encodeAll js ++ rest') : is <+: js ∨ js <+: is := by
  induction is generalizing js with
  | nil => exact .inl List.nil_prefix
  | cons i is ih =>
    cases js with
    | nil => exact .inr List.nil_prefix
    | cons j js =>
      rw [Instruction.encodeAll_cons, Instruction.encodeAll_cons, List.append_assoc,
        List.append_assoc] at h
      have hdecode := decode_encode i 0 (encodeAll is ++ rest)
      rw [h, decode_encode] at hdecode
      obtain ⟨rfl, hrest⟩ := Prod.mk.inj (Except.ok.inj hdecode)
      rcases ih hrest.symm with hprefix | hprefix
      · exact .inl ((List.prefix_cons_inj j).mpr hprefix)
      · exact .inr ((List.prefix_cons_inj j).mpr hprefix)

theorem BeforeRet.floatFree_iff {code : List UInt8} {is : List Instruction}
    (h : BeforeRet code is) : FloatFree code ↔ ∀ i ∈ is, i.opcode.hasFloat = false := by
  obtain ⟨hcode, hret⟩ := h
  obtain ⟨rest, hrest⟩ := startsWith_iff.mp hcode
  constructor
  · intro hfloat i hi
    obtain ⟨before, after, rfl⟩ := List.append_of_mem hi
    refine hfloat before i (startsWith_iff.mpr ⟨encodeAll (after ++ [.ret]) ++ rest, ?_⟩) ?_
    · rw [← hrest]
      simp
    · intro j hj
      exact hret j (List.mem_append_left _ hj)
  · intro hfloat js j hstarts hjs
    obtain ⟨rest', hrest'⟩ := startsWith_iff.mp hstarts
    -- The last one of `js ++ [j]` is one of `is` or the `ret` behind them.
    have hmem : j ∈ is ++ [.ret] := by
      rcases prefix_or_prefix_of_encodeAll (hrest'.trans hrest.symm) with hprefix | hprefix
      · exact hprefix.subset (List.mem_append_right _ (List.mem_singleton_self j))
      · rcases List.prefix_concat_iff.mp hprefix with heq | hshort
        · rw [heq]
          exact List.mem_append_right _ (List.mem_singleton_self j)
        · have hmem : Instruction.ret ∈ js :=
            hshort.subset (List.mem_append_right _ (List.mem_singleton_self _))
          exact absurd rfl (hjs _ hmem)
    rcases List.mem_append.mp hmem with hj | hj
    · exact hfloat j hj
    · rw [List.mem_singleton.mp hj]
      rfl

/-! ## Listed instructions -/

namespace Listing

/-- The lines of some instructions, of which the first stands at `offset`. -/
def lines (offset : Nat) : List Instruction → List String
  | [] => []
  | i :: is => line offset i :: lines (offset + i.size) is

/-- The recorder writes a line for each instruction and refuses nothing. -/
theorem run_callAll_recorder (offset : Nat) (steps : List (Instruction × Operation))
    (kept : Array String) :
    (recorder.callAll (Trace.callsFrom offset steps)).run kept =
      .ok () (kept ++ (lines offset (Trace.instructions steps)).toArray) := by
  induction steps generalizing offset kept with
  | nil => simp [Trace.instructions, lines, Consumer.callAll]
  | cons step steps ih =>
    obtain ⟨i, op⟩ := step
    have hobserve : (recorder.call (.observe offset i)).run kept =
        .ok () (kept.push (line offset i)) := rfl
    have hperform : ∀ kept, (recorder.call (.perform op)).run kept = .ok () kept := fun _ => rfl
    rw [Trace.callsFrom_cons, recorder.run_callAll_cons_of_ok hobserve,
      recorder.run_callAll_cons_of_ok (hperform _), ih]
    simp [Trace.instructions, lines]

/-- A trace that ends in a fault is not listed to its end. -/
theorem run_follow_recorder {t : Trace} {kept kept' : Array String}
    (h : (recorder.follow t).run kept = .ok () kept') :
    t.fault = none ∧ (recorder.callAll t.calls).run kept = .ok () kept' := by
  unfold Consumer.follow at h
  obtain ⟨⟨⟩, next, hcalls, hend⟩ := run_bind_ok_iff.mp h
  cases hfault : t.fault with
  | some fault =>
    rw [hfault] at hend
    cases hend
  | none =>
    rw [hfault] at hend
    cases hend
    exact ⟨rfl, hcalls⟩

/-- A listing shows the instructions up to the first `ret`. -/
theorem exists_lines {r : Resolver} {code : List UInt8} {listing : String}
    (h : complete r code = .ok listing) :
    ∃ is, BeforeRet code is ∧ listing = text (lines 0 (is ++ [.ret])) := by
  unfold complete ofCode at h
  rw [recorder.feed_eq_follow] at h
  have htrace := Trace.isOf_ofCode r code
  generalize Trace.ofCode r code = t at h htrace
  cases hrun : (recorder.follow t).run #[] with
  | error fault kept =>
    rw [hrun] at h
    cases h
  | ok _ kept =>
    rw [hrun] at h
    cases h
    obtain ⟨hfault, hcalls⟩ := run_follow_recorder hrun
    -- Of the three ends of a trace only the `ret` is without a fault.
    cases htrace with
    | undecodable => cases hfault
    | unresolved => cases hfault
    | returned steps hsteps hcode =>
      refine ⟨Trace.instructions steps, ⟨hcode, ?_⟩, ?_⟩
      · intro i hi
        obtain ⟨step, hstep, rfl⟩ := List.mem_map.mp hi
        exact (hsteps step hstep).1
      · rw [run_callAll_recorder] at hcalls
        cases hcalls
        simp [Trace.instructions]

end Listing

/-! ## Mnemonics -/

/-- The characters up to which a mnemonic reaches. -/
def isNameChar (c : Char) : Bool :=
  c != ' ' && c != '\n'

namespace Opcode

theorem isNameChar_of_mem_mnemonic (o : Opcode) :
    ∀ c ∈ o.mnemonic.toList, isNameChar c = true := by
  have h : all.all (fun o => o.mnemonic.toList.all isNameChar) = true := by decide +kernel
  exact List.all_eq_true.mp (List.all_eq_true.mp h o (mem_all o))

/-- No two opcodes have the same mnemonic. -/
theorem mnemonic_injective {o o' : Opcode} (h : o.mnemonic = o'.mnemonic) : o = o' := by
  have hnodup : (all.map (·.mnemonic)).Nodup := by decide +kernel
  exact List.inj_on_of_nodup_map hnodup (mem_all o) (mem_all o') h

end Opcode

/-! ## Operands -/

namespace Shape

/-- Whether the operand is a floating-point number. -/
def isFloat : Shape → Bool
  | .single | .double => true
  | _ => false

/-- Behind a mnemonic stands a blank or the end of the line. -/
theorem ends_text (s : Shape) (operand : s.Operand) (rest : List Char) :
    Ends isNameChar ((s.text operand).toList ++ '\n' :: rest) := by
  cases s with
  | empty => exact ends_cons rfl rest
  | _ =>
    rw [text, String.toList_append, List.append_assoc]
    exact ends_cons rfl _

theorem newline_notMem_text {s : Shape} (hs : s.isFloat = false) (operand : s.Operand) :
    '\n' ∉ (s.text operand).toList := by
  intro h
  cases s with
  | empty => cases h
  | single | double => cases hs
  | slot =>
    rw [text, String.toList_append, List.mem_append] at h
    rcases h with h | h
    · exact absurd h (by decide)
    · exact absurd (Text.isDigit_of_mem_toString h) (by decide)
  | int8 | int32 | int64 =>
    rw [text, String.toList_append, List.mem_append] at h
    rcases h with h | h
    · exact absurd h (by decide)
    · exact absurd (Text.mem_toString_int h) (by decide)
  | token kind =>
    -- The blank, the mark of a hexadecimal number, and its digits.
    have hlist : (text (.token kind) operand).toList =
        ' ' :: '0' :: 'x' :: Text.padZeros 8 (Text.hexDigits (Token.value operand).toNat) := by
      simp [text, Token.render]
    rw [hlist] at h
    simp only [List.mem_cons, Text.padZeros, List.mem_append, List.mem_replicate] at h
    rcases h with h | h | h | ⟨-, h⟩ | h
    · exact absurd h (by decide)
    · exact absurd h (by decide)
    · exact absurd h (by decide)
    · exact absurd h (by decide)
    · exact absurd (Text.isAlphanum_of_mem_hexDigits h) (by decide)

/-- All operands but floating-point numbers can be read back. -/
theorem text_injective {s : Shape} (hs : s.isFloat = false) {a b : s.Operand}
    (h : s.text a = s.text b) : a = b := by
  cases s with
  | empty => rfl
  | single | double => cases hs
  | slot =>
    have hnumber := (String.append_right_inj _).mp h
    exact UInt8.toNat_inj.mp (Text.toString_nat_injective hnumber)
  | int8 =>
    have hnumber := (String.append_right_inj _).mp h
    exact Int8.toInt_inj.mp (Text.toString_int_injective hnumber)
  | int32 =>
    have hnumber := (String.append_right_inj _).mp h
    exact Int32.toInt_inj.mp (Text.toString_int_injective hnumber)
  | int64 =>
    have hnumber := (String.append_right_inj _).mp h
    exact Int64.toInt_inj.mp (Text.toString_int_injective hnumber)
  | token kind =>
    have hrender := (String.append_right_inj _).mp h
    have hdigits := (String.append_right_inj _).mp hrender
    have hvalue := UInt32.toNat_inj.mp (Text.hex_injective hdigits)
    exact congrArg Token.mk hvalue

end Shape

/-! ## Lines -/

theorem Opcode.isFloat_shape (o : Opcode) : o.shape.isFloat = o.hasFloat := by
  have h : ∀ o ∈ all, o.shape.isFloat = o.hasFloat := by decide +kernel
  exact h o (mem_all o)

/-- A line tells its instruction, unless the operand is a floating-point number,
    and where the next line starts. -/
theorem Instruction.render_append_inj {i i' : Instruction} {rest rest' : List Char}
    (hfloat : i.opcode.hasFloat = false)
    (h : i.render.toList ++ '\n' :: rest = i'.render.toList ++ '\n' :: rest') :
    i = i' ∧ rest = rest' := by
  obtain ⟨opcode, operand⟩ := i
  obtain ⟨opcode', operand'⟩ := i'
  simp only [render, String.toList_append, List.append_assoc] at h
  -- The mnemonics end where the operands start.
  obtain ⟨hmnemonic, hoperand⟩ := word_append_inj opcode.isNameChar_of_mem_mnemonic
    opcode'.isNameChar_of_mem_mnemonic (Shape.ends_text _ _ _) (Shape.ends_text _ _ _) h
  obtain rfl := Opcode.mnemonic_injective (String.toList_inj.mp hmnemonic)
  -- The operands are of one shape now and end where the line does.
  have hshape : opcode.shape.isFloat = false := by rw [Opcode.isFloat_shape, hfloat]
  have hline : ∀ a : opcode.shape.Operand,
      ∀ c ∈ (opcode.shape.text a).toList, (c != '\n') = true := by
    intro a c hc
    rw [bne_iff_ne]
    rintro rfl
    exact Shape.newline_notMem_text hshape a hc
  obtain ⟨htext, hrest⟩ := word_append_inj (hline operand) (hline operand')
    (ends_cons rfl _) (ends_cons rfl _) hoperand
  obtain rfl := Shape.text_injective hshape (String.toList_inj.mp htext)
  exact ⟨rfl, (List.cons.inj hrest).2⟩

namespace Listing

theorem toList_text_cons (offset : Nat) (i : Instruction) (lines : List String) :
    (text (line offset i :: lines)).toList =
      (Text.offsetLabel offset ++ ": ").toList ++ (i.render.toList ++ '\n' :: (text lines).toList) := by
  simp [text, line]

/-- Listings from the same offset on that are the same start with the same
    instruction and go on in the same way. -/
theorem text_lines_inj {offset : Nat} {i i' : Instruction} {is is' : List Instruction}
    (hfloat : i.opcode.hasFloat = false)
    (h : text (lines offset (i :: is)) = text (lines offset (i' :: is'))) :
    i = i' ∧ text (lines (offset + i.size) is) = text (lines (offset + i.size) is') := by
  have hlines := congrArg String.toList h
  rw [lines, lines, toList_text_cons, toList_text_cons] at hlines
  obtain ⟨rfl, hrest⟩ := Instruction.render_append_inj hfloat (List.append_cancel_left hlines)
  exact ⟨rfl, String.toList_inj.mp hrest⟩

/-- Listings from the same offset on that end with the first `ret` tell all
    their instructions. -/
theorem eq_of_text_lines {is is' : List Instruction} {offset : Nat}
    (hret : ∀ i ∈ is, i.opcode ≠ .ret) (hret' : ∀ i ∈ is', i.opcode ≠ .ret)
    (hfloat : ∀ i ∈ is, i.opcode.hasFloat = false)
    (h : text (lines offset (is ++ [.ret])) = text (lines offset (is' ++ [.ret]))) : is = is' := by
  induction is generalizing is' offset with
  | nil =>
    cases is' with
    | nil => rfl
    | cons i' is' =>
      -- The other listing would go on behind a `ret`.
      obtain ⟨hi, -⟩ := text_lines_inj rfl h
      exact absurd (hi ▸ rfl) (hret' i' List.mem_cons_self)
  | cons i is ih =>
    obtain ⟨hi, his⟩ := List.forall_mem_cons.mp hret
    obtain ⟨hfirst, hlater⟩ := List.forall_mem_cons.mp hfloat
    cases is' with
    | nil =>
      obtain ⟨rfl, -⟩ := text_lines_inj hfirst h
      exact absurd rfl hi
    | cons i' is' =>
      obtain ⟨rfl, hrest⟩ := text_lines_inj hfirst h
      have his' := (List.forall_mem_cons.mp hret').2
      rw [ih his his' hlater hrest]

end Listing

/-- Two pieces of code that are listed alike, under whatever resolvers, have the
    same instructions before their first `ret` and agree byte for byte up to its
    end, if none of these instructions has a floating-point operand. -/
theorem listing_determines_code {r r' : Resolver} {code code' : List UInt8} {listing : String}
    (hfloat : FloatFree code) (h : Listing.complete r code = .ok listing)
    (h' : Listing.complete r' code' = .ok listing) :
    ∃ is, BeforeRet code is ∧ BeforeRet code' is ∧
      code'.take (sizeAll (is ++ [.ret])) = code.take (sizeAll (is ++ [.ret])) := by
  obtain ⟨is, hbefore, htext⟩ := Listing.exists_lines h
  obtain ⟨is', hbefore', htext'⟩ := Listing.exists_lines h'
  have his : is = is' := Listing.eq_of_text_lines hbefore.2 hbefore'.2
    (hbefore.floatFree_iff.mp hfloat) (htext.symm.trans htext')
  subst his
  refine ⟨is, hbefore, hbefore', ?_⟩
  obtain ⟨rest, rfl⟩ := startsWith_iff.mp hbefore.1
  obtain ⟨rest', rfl⟩ := startsWith_iff.mp hbefore'.1
  rw [← Instruction.length_encodeAll, List.take_left, List.take_left]

/-! ### A text behind a number -/

namespace Numbered

def label : Token := ⟨0x70000001⟩

def resolver : Resolver :=
  (SymbolTable.ofList [(label, .string "label")]).resolver

def otherResolver : Resolver :=
  (SymbolTable.ofList [(label, .string "another label")]).resolver

def instructions : List Instruction :=
  [⟨.ldcI4S, (-2 : Int8)⟩, ⟨.ldstr, label⟩]

/-- Behind the `ret` stands a mark without a second byte. -/
def code : List UInt8 :=
  encodeAll (instructions ++ [.ret]) ++ [0xfe]

def otherCode : List UInt8 :=
  encodeAll (instructions ++ [.ret])

def listing : String :=
  "IL_0000: ldc.i4.s -2\nIL_0002: ldstr 0x70000001\nIL_0007: ret\n"

theorem beforeRet_code : BeforeRet code instructions := by
  refine ⟨startsWith_iff.mpr (List.prefix_append _ _), ?_⟩
  decide

theorem determines_otherCode :
    FloatFree code ∧ Listing.complete resolver code = .ok listing ∧
      Listing.complete otherResolver otherCode = .ok listing ∧
      ∃ is, BeforeRet code is ∧ BeforeRet otherCode is ∧
        otherCode.take (sizeAll (is ++ [.ret])) = code.take (sizeAll (is ++ [.ret])) := by
  have hfloat : FloatFree code := beforeRet_code.floatFree_iff.mpr (by decide)
  have hcode : Listing.complete resolver code = .ok listing := by
    rw [Listing.complete, Listing.ofCode, Consumer.feed_eq_follow, Trace.ofCode, code,
      Trace.ofBytes_encodeAll_append]
    rfl
  have hother : Listing.complete otherResolver otherCode = .ok listing := by
    rw [Listing.complete, Listing.ofCode, Consumer.feed_eq_follow, otherCode,
      Trace.ofCode_encodeAll]
    rfl
  exact ⟨hfloat, hcode, hother, listing_determines_code hfloat hcode hother⟩

end Numbered

end CilLift
