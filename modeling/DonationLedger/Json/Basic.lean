import DonationLedger.Number.Binary64

namespace DonationLedger

inductive Json where
  | null
  | bool (b : Bool)
  | int (n : Int)
  | real (x : Number.Binary64)
  | str (s : String)
  | arr (items : List Json)
  | obj (members : List (String × Json))
  deriving Repr

namespace Json

instance : Inhabited Json := ⟨null⟩

def member? (members : List (String × Json)) (name : String) : Option Json :=
  match members with
  | [] => none
  | (n, v) :: rest =>
      match member? rest name with
      | some w => some w
      | none => if n == name then some v else none

theorem member?_cons (n : String) (v : Json) (rest : List (String × Json)) (name : String) :
    member? ((n, v) :: rest) name
      = (member? rest name).or (if n == name then some v else none) := by
  simp only [member?]
  cases member? rest name <;> rfl

theorem member?_eq_none_iff {members : List (String × Json)} {name : String} :
    member? members name = none ↔ ∀ m ∈ members, m.1 ≠ name := by
  induction members with
  | nil => simp [member?]
  | cons m rest ih =>
      obtain ⟨n, v⟩ := m
      rw [member?_cons]
      cases h : member? rest name with
      | some w =>
          have : ¬∀ m ∈ rest, m.1 ≠ name := fun hn => by simp [ih.2 hn] at h
          simp only [Option.some_or, reduceCtorEq, List.mem_cons, false_iff]
          exact fun hn => this fun m hm => hn m (Or.inr hm)
      | none => simpa using fun _ => by simpa using ih.1 h

def closed (names : List String) (members : List (String × Json)) : Bool :=
  members.all (fun m => names.contains m.1)

def get? (name : String) : Json → Option Json
  | obj members => member? members name
  | _ => none

def counted : Json → Json
  | bool b => int (if b then 1 else 0)
  | v => v

def isNull : Json → Bool
  | null => true
  | _ => false

def isEmpty : Json → Bool
  | null => true
  | bool b => !b
  | int n => n == 0
  | real (.finite _ m _) => m == 0
  | real _ => false
  | str s => s.isEmpty
  | arr items => items.isEmpty
  | obj members => members.isEmpty

mutual

def height : Json → Nat
  | arr items => itemsHeight items + 1
  | obj members => membersHeight members + 1
  | _ => 1

def itemsHeight : List Json → Nat
  | [] => 0
  | v :: vs => max v.height (itemsHeight vs)

def membersHeight : List (String × Json) → Nat
  | [] => 0
  | (_, v) :: ms => max v.height (membersHeight ms)

end

def greatestHeight : Nat := 255

end Json

end DonationLedger
