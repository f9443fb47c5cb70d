import DonationLedger.Store.Pending
import DonationLedger.Fault

namespace DonationLedger

inductive Backend where
  | sound
  | closed
  /-- Answers reads, and says what is wrong with the writes and removals that it does not make. -/
  | faulty (complaint? : Bytes → Option Bytes → Option String)

namespace Backend

instance : Coe Bool Backend := ⟨fun isOpen => bif isOpen then sound else closed⟩

def closedText : String := "Cannot operate on a closed database."

def isSound : Backend → Bool
  | sound => true
  | _ => false

def isReadable : Backend → Bool
  | closed => false
  | _ => true

def refusal? : Backend → Bytes → Option Bytes → Option String
  | sound, _, _ => none
  | closed, _, _ => some closedText
  | faulty complaint?, k, v => complaint? k v

end Backend

inductive Store where
  | base (content : Content) (backend : Backend)
  | view (front : Bytes) (inner : Store)
  | overlay (pending : Pending) (inner : Store)

namespace Store

def memory (c : Content) : Store := base c .sound

instance : Inhabited Store := ⟨memory Content.empty⟩

/-- The front of every key of a namespace: the length in two bytes, then the name. -/
def front? (name : String) : Option Bytes :=
  let b := Bytes.ofText name
  if b.length < 65536 then
    some (UInt8.ofNat (b.length / 256) :: UInt8.ofNat (b.length % 256) :: b)
  else none

def viewOf (name : String) (s : Store) : Except Fault Store :=
  match front? name with
  | some p => .ok (view p s)
  | none => .error .longNamespace

def overlayOf (s : Store) : Store := overlay Pending.empty s

def inner : Store → Store
  | base c b => base c b
  | view _ s => s
  | overlay _ s => s

def isReadable : Store → Bool
  | base _ b => b.isReadable
  | view _ s => s.isReadable
  | overlay _ s => s.isReadable

def takesWrites : Store → Bool
  | base _ b => b.isSound
  | view _ s => s.takesWrites
  | overlay _ _ => true

def isOpen (s : Store) : Bool := s.isReadable && s.takesWrites

def content : Store → Content
  | base c _ => c
  | view p s => s.content.under p
  | overlay w s => w.apply s.content

def refused (access : Access) (k : Bytes) (text : String) : Fault :=
  .refusal (.storage k.toTextLossy (.refused access text))

def get : Store → Bytes → Except Fault (Option Bytes)
  | base c b, k =>
      if b.isReadable then .ok (c.get? k) else .error (refused .read k Backend.closedText)
  | view p s, k => s.get (p ++ k)
  | overlay w s, k =>
      match w.get? k with
      | some v => .ok v
      | none => s.get k

def accessOf : Option Bytes → Access
  | some _ => .write
  | none => .delete

def put : Store → Bytes → Option Bytes → Except Fault Store
  | base c b, k, v =>
      match b.refusal? k v with
      | none => .ok (base (c.put k v) b)
      | some text => .error (refused (accessOf v) k text)
  | view p s, k, v => (s.put (p ++ k) v).map (view p)
  | overlay w s, k, v => .ok (overlay (w.put k v) s)

def items (s : Store) : Except Fault (List (Bytes × Bytes)) :=
  if s.isReadable then .ok s.content.entries else .error .closedListing

def putAll (s : Store) (writes : List Pending.Write) : Except Fault Store :=
  writes.foldlM (fun s w => s.put w.1 w.2) s

def commit : Store → Except Fault Store
  | overlay w s => (s.putAll w.writes).map overlayOf
  | s => .ok s

/-- The store with the writes that come before the first one that is refused. -/
def landed (s : Store) : List Pending.Write → Store
  | [] => s
  | w :: rest =>
      match s.put w.1 w.2 with
      | .ok t => t.landed rest
      | .error _ => s

def halted : Store → Store
  | overlay w s => overlay w (s.landed w.writes)
  | s => s

def discard : Store → Store
  | overlay _ s => overlayOf s
  | s => s

def close : Store → Store
  | base c _ => base c .closed
  | s => s

theorem isReadable_of_isOpen {s : Store} (h : s.isOpen = true) : s.isReadable = true :=
  (Bool.and_eq_true_iff.1 h).1

theorem isOpen_overlay {s : Store} (h : s.isOpen = true) (w : Pending) :
    (overlay w s).isOpen = true := by
  have hread : s.isReadable = true := isReadable_of_isOpen h
  exact Bool.and_eq_true_iff.2 ⟨hread, rfl⟩

theorem get_of_readable {s : Store} (h : s.isReadable = true) (k : Bytes) :
    s.get k = .ok (s.content.get? k) := by
  induction s generalizing k with
  | base c b =>
      simp only [isReadable] at h
      simp [get, content, h]
  | view p s ih => simp [get, content, ih h, Content.get?_under]
  | overlay w s ih =>
      simp only [get, content, Pending.get?_apply]
      cases w.get? k with
      | some v => rfl
      | none => exact ih h k

theorem get_eq_content {s : Store} (h : s.isOpen = true) (k : Bytes) :
    s.get k = .ok (s.content.get? k) :=
  get_of_readable (isReadable_of_isOpen h) k

end Store

end DonationLedger
