import CilLift.Code.Opcode
import CilLift.Member

/-! # Symbols

    What tokens stand for. A `Resolver` answers one question for each kind of
    token. A `SymbolTable` keeps one symbol for each token and answers only
    the question of that symbol's own kind: a token of a field is no method.
-/

namespace CilLift

/-- The meaning of tokens, by kind. -/
structure Resolver where
  method : Token → Option MethodRef
  ctor : Token → Option ConstructorRef
  field : Token → Option FieldRef
  type : Token → Option Ty
  string : Token → Option String

/-- One thing a token can stand for. -/
inductive Symbol where
  | method (m : MethodRef)
  | ctor (c : ConstructorRef)
  | field (f : FieldRef)
  | type (t : Ty)
  | string (s : String)

/-- A finite assignment of symbols to tokens, no token twice. -/
structure SymbolTable where
  entries : List (Token × Symbol)

namespace SymbolTable

/-- The table without tokens. -/
def empty : SymbolTable := ⟨[]⟩

/-- Gives a token its meaning, in place of one that it had. -/
def insert (table : SymbolTable) (token : Token) (symbol : Symbol) : SymbolTable :=
  ⟨(token, symbol) :: table.entries.filter (·.1 ≠ token)⟩

/-- The table in which later entries replace earlier ones. -/
def ofList (entries : List (Token × Symbol)) : SymbolTable :=
  entries.foldl (fun table e => table.insert e.1 e.2) empty

/-- How many tokens have a meaning. -/
def size (table : SymbolTable) : Nat :=
  table.entries.length

/-- What the token stands for. -/
def get? (table : SymbolTable) (token : Token) : Option Symbol :=
  table.entries.lookup token

/-- The table as the meaning of tokens. -/
def resolver (table : SymbolTable) : Resolver where
  method token := match table.get? token with
    | some (.method m) => some m
    | _ => none
  ctor token := match table.get? token with
    | some (.ctor c) => some c
    | _ => none
  field token := match table.get? token with
    | some (.field f) => some f
    | _ => none
  type token := match table.get? token with
    | some (.type t) => some t
    | _ => none
  string token := match table.get? token with
    | some (.string s) => some s
    | _ => none

/-- A new entry answers for its own token and changes no other answer. -/
theorem get?_insert (table : SymbolTable) (token query : Token) (symbol : Symbol) :
    (table.insert token symbol).get? query =
      if query = token then some symbol else table.get? query := by
  by_cases h : query = token
  · simp [get?, insert, h]
  · have hfilter : ∀ entries : List (Token × Symbol),
        (entries.filter (·.1 ≠ token)).lookup query = entries.lookup query := by
      intro entries
      induction entries with
      | nil => rfl
      | cons e entries ih => grind
    have hq : (query == token) = false := by simp [h]
    rw [if_neg h, get?, insert, List.lookup_cons, hq]
    exact hfilter table.entries

end SymbolTable

end CilLift
