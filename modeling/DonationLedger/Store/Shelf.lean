import DonationLedger.Store.Basic

namespace DonationLedger

inductive Layer where
  | base (content : Content) (backend : Backend)
  | view (front : Bytes) (below : Nat)
  | overlay (pending : Pending) (below : Nat)

structure Shelf where
  layers : List Layer

namespace Shelf

def empty : Shelf := ⟨[]⟩

def push (shelf : Shelf) (layer : Layer) : Shelf := ⟨layer :: shelf.layers⟩

def next (shelf : Shelf) : Nat := shelf.layers.length

def assemble : List Layer → Nat → Store
  | [], _ => Store.memory Content.empty
  | layer :: earlier, n =>
      if n = earlier.length then
        match layer with
        | .base c b => .base c b
        | .view p m => .view p (assemble earlier m)
        | .overlay w m => .overlay w (assemble earlier m)
      else assemble earlier n

def spread : List Layer → Nat → Store → List Layer
  | [], _, _ => []
  | layer :: earlier, n, s =>
      if n = earlier.length then
        match layer, s with
        | .base _ _, .base c b => .base c b :: earlier
        | .view p m, .view _ s => .view p m :: spread earlier m s
        | .overlay _ m, .overlay w s => .overlay w m :: spread earlier m s
        | layer, _ => layer :: earlier
      else layer :: spread earlier n s

def store (shelf : Shelf) (n : Nat) : Store := assemble shelf.layers n

def putBack (shelf : Shelf) (n : Nat) (s : Store) : Shelf := ⟨spread shelf.layers n s⟩

end Shelf

end DonationLedger
