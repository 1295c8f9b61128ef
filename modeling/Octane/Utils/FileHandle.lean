import Octane.Lib.Ledger

namespace octane.utils

/-- What the system gives out: open descriptors, and mappings with their address and size. -/
inductive Resource where
  | descriptor (fd : Int)
  | mapping (address size : Nat)
deriving DecidableEq

/-- A null pointer is `none`. -/
structure MappedFile where
  data : Option Nat := none
  size : Nat := 0
  fd : Int := -1
deriving DecidableEq

/-- What the system calls of one `open` answer: `::open` with -1 where it fails,
`fstat` with the file's size and `mmap` with an address, or with nothing where they fail. -/
structure Answers where
  opened : Int
  st_size : Option Nat
  mapped : Option Nat

/-- The system gives out nothing that it has given out already. -/
structure Answers.Allowed (answers : Answers) (ledger : Ledger Resource) : Prop where
  opened : Resource.descriptor answers.opened ∉ ledger.live
  mapped : ∀ address, answers.mapped = some address → ∀ size, Resource.mapping address size ∉ ledger.live

namespace MappedFile

/-- `open` with what it returns and what becomes of the ledger. -/
def «open» (self : MappedFile) (answers : Answers) (ledger : Ledger Resource) :
    Bool × MappedFile × Ledger Resource :=
  let self := { self with fd := answers.opened }
  if self.fd = -1 then (false, self, ledger)
  else
    let ledger := ledger.acquire (.descriptor self.fd)
    match answers.st_size with
    | none => (false, { self with fd := -1 }, ledger.release (.descriptor self.fd))
    | some 0 => (false, { self with fd := -1 }, ledger.release (.descriptor self.fd))
    | some st_size =>
      let self := { self with size := st_size }
      match answers.mapped with
      | none => (false, { self with data := none, fd := -1 }, ledger.release (.descriptor self.fd))
      | some address =>
        (true, { self with data := some address }, ledger.acquire (.mapping address self.size))

/-- The pointer and the length of the view; `none` is the empty one. -/
def view (self : MappedFile) : Option (Nat × Nat) :=
  match self.data with
  | none => none
  | some data => if self.size = 0 then none else some (data, self.size)

/-- The destructor. -/
def destroy (self : MappedFile) (ledger : Ledger Resource) : Ledger Resource :=
  let ledger :=
    match self.data with
    | none => ledger
    | some data => ledger.release (.mapping data self.size)
  if self.fd ≠ -1 then ledger.release (.descriptor self.fd) else ledger

/-- The move constructor: the new object, and what is left of the one it is made from. -/
def move_construct (o : MappedFile) : MappedFile × MappedFile :=
  ({ data := o.data, size := o.size, fd := o.fd }, { o with data := none, size := 0, fd := -1 })

/-- `operator=` of two different objects: it ends what it had first. -/
def move_assign (self o : MappedFile) (ledger : Ledger Resource) :
    MappedFile × MappedFile × Ledger Resource :=
  let ledger := self.destroy ledger
  ({ self with data := o.data, size := o.size, fd := o.fd }, { o with fd := -1, data := none, size := 0 }, ledger)

end MappedFile

/-- The objects of a program by name, and what the system has given out. -/
structure Files where
  objects : Nat → Option MappedFile := fun _ => none
  ledger : Ledger Resource := {}

inductive Operation where
  | construct (i : Nat)
  | «open» (i : Nat) (answers : Answers)
  | move_construct (i j : Nat)
  | move_assign (i j : Nat)
  | destroy (i : Nat)

namespace Files

/-- The operations a program may perform on its objects: on those that it has,
and the constructors where it has none yet. -/
inductive Step (self : Files) : Operation → Files → Prop where
  | construct (i : Nat) (hnew : self.objects i = none) :
    Step self (.construct i) { self with objects := Function.update self.objects i (some {}) }
  | open (i : Nat) (answers : Answers) (file : MappedFile) (hfile : self.objects i = some file)
      (hallowed : answers.Allowed self.ledger) :
    Step self (.open i answers)
      { objects := Function.update self.objects i (some (file.open answers self.ledger).2.1)
        ledger := (file.open answers self.ledger).2.2 }
  | move_construct (i j : Nat) (o : MappedFile) (hnew : self.objects i = none) (ho : self.objects j = some o) :
    Step self (.move_construct i j) { self with
      objects := Function.update (Function.update self.objects i (some o.move_construct.1))
        j (some o.move_construct.2) }
  | assign_self (i : Nat) (file : MappedFile) (hfile : self.objects i = some file) :
    Step self (.move_assign i i) self
  | move_assign (i j : Nat) (file o : MappedFile) (hne : i ≠ j) (hfile : self.objects i = some file)
      (ho : self.objects j = some o) :
    Step self (.move_assign i j)
      { objects := Function.update (Function.update self.objects i (some (file.move_assign o self.ledger).1))
          j (some (file.move_assign o self.ledger).2.1)
        ledger := (file.move_assign o self.ledger).2.2 }
  | destroy (i : Nat) (file : MappedFile) (hfile : self.objects i = some file) :
    Step self (.destroy i)
      { objects := Function.update self.objects i none
        ledger := file.destroy self.ledger }

end Files

end octane.utils
