import Mccpp.Model.Resource

/-!
# Loading resources

`manager::get` of `resource/`, which makes the resource that is asked for unless it is in
`m_resources`. The constructor of a resource may call `get` again, while the outer call is still
running; `m_init_list` has the keys of the calls that are.

A constructor gets its dependencies in order, lets exceptions propagate, and may then throw one of
its own. Resources and nodes of the list have an identity: `objects` is every resource that was
ever made, and a pointer to a resource is its position there; a list iterator is the number of its
node. The C++ recursion has no bound of its own: `none` is a recursion deeper than `fuel` calls.
-/

set_option autoImplicit false

namespace Mccpp.Model.Loading

/-- `storage_key_type`; `τ` is `std::type_index`. -/
structure StorageKey (τ : Type) where
  type : τ
  id : Identifier
deriving DecidableEq

/-- `std::exception`, from the manager or from a constructor. -/
inductive Exception (ε : Type) where
  | runtimeError (what : String)
  | ownException (e : ε)
deriving DecidableEq

/-- The constructor of a resource. -/
structure Constructor (τ ε : Type) where
  dependencies : List (StorageKey τ)
  failure : Option ε

/-- A `resource` that has been made, with what the calls of its constructor returned. -/
structure Resource (τ : Type) where
  key : StorageKey τ
  dependencies : List (Option ℕ)

/-- A node of `m_init_list`. -/
structure InitItem (τ : Type) where
  node : ℕ
  key : StorageKey τ

/-- `manager`. -/
structure Manager (τ : Type) where
  mResources : StorageKey τ → Option ℕ
  mInitList : List (InitItem τ)
  objects : List (Resource τ)
  nodes : ℕ

/-- How a call ends; an assertion that fails ends the program. -/
inductive Outcome (ε α : Type) where
  | returned (value : α)
  | thrown (e : Exception ε)
  | assertionFailed
deriving DecidableEq

/-- Code that works on the manager. -/
abbrev Load (τ ε α : Type) := Manager τ → Option (Outcome ε α × Manager τ)

variable {τ ε α β : Type}

namespace Load

def result (value : α) : Load τ ε α := fun m => some (.returned value, m)

def throwing (e : Exception ε) : Load τ ε α := fun m => some (.thrown e, m)

def bind (x : Load τ ε α) (f : α → Load τ ε β) : Load τ ε β := fun m =>
  match x m with
  | none => none
  | some (.returned value, m) => f value m
  | some (.thrown e, m) => some (.thrown e, m)
  | some (.assertionFailed, m) => some (.assertionFailed, m)

/-- `MCCPP_SCOPE_EXIT`: at the end of the scope, also when an exception leaves it. -/
def scopeExit (callback : Manager τ → Manager τ) (x : Load τ ε α) : Load τ ε α := fun m =>
  match x m with
  | none => none
  | some (.returned value, m) => some (.returned value, callback m)
  | some (.thrown e, m) => some (.thrown e, callback m)
  | some (.assertionFailed, m) => some (.assertionFailed, m)

end Load

/-- `create_resource_fn`. -/
inductive CreateResourceFn where
  | nullptr
  | createResource
deriving DecidableEq

namespace Manager

def init : Manager τ := ⟨fun _ => none, [], [], 0⟩

variable [DecidableEq τ]

/-- `m_init_list.emplace(m_init_list.begin(), type, id)`, and the iterator. -/
def emplaceFront (m : Manager τ) (key : StorageKey τ) : ℕ × Manager τ :=
  (m.nodes, { m with mInitList := ⟨m.nodes, key⟩ :: m.mInitList, nodes := m.nodes + 1 })

/-- `m_init_list.erase(iter)`. -/
def erase (iter : ℕ) (m : Manager τ) : Manager τ :=
  { m with mInitList := m.mInitList.eraseP fun item => item.node = iter }

/-- The `any_of` over `m_init_list`. -/
def inProgress (m : Manager τ) (key : StorageKey τ) : Bool :=
  m.mInitList.any fun item => item.key = key

end Manager

variable [DecidableEq τ]

/-- `std::make_unique<T>`, after the constructor. -/
def makeUnique (res : Resource τ) : Load τ ε ℕ := fun m =>
  some (.returned m.objects.length, { m with objects := m.objects ++ [res] })

/-- `m_resources.try_emplace(key, res)`, with `assert(inserted)`. -/
def tryEmplace (key : StorageKey τ) (res : ℕ) : Load τ ε (Option ℕ) := fun m =>
  match m.mResources key with
  | none =>
    some (.returned (some res), { m with
      mResources := fun k => if k = key then some res else m.mResources k })
  | some _ => some (.assertionFailed, m)

/-- The `get` calls of a constructor. -/
def getDependencies (get : StorageKey τ → Load τ ε (Option ℕ)) :
    List (StorageKey τ) → Load τ ε (List (Option ℕ))
  | [] => .result []
  | key :: keys =>
    .bind (get key) fun handle => .bind (getDependencies get keys) fun handles =>
      .result (handle :: handles)

/-- `create_resource<T>(id, flags)`. -/
def createResource (get : StorageKey τ → Load τ ε (Option ℕ)) (key : StorageKey τ)
    (c : Constructor τ ε) : Load τ ε ℕ :=
  .bind (getDependencies get c.dependencies) fun handles =>
    match c.failure with
    | some e => .throwing (.ownException e)
    | none => makeUnique ⟨key, handles⟩

/-- The exception of a cycle. -/
def resourceCycleDetected : Exception ε := .runtimeError "resource cycle detected"

section Get

variable (constructors : StorageKey τ → Constructor τ ε)

/-- `get_internal(type, id, flags, factory)`. -/
def getInternal : ℕ → StorageKey τ → CreateResourceFn → Load τ ε (Option ℕ)
  | 0, _, _ => fun _ => none
  | fuel + 1, key, factory => fun m =>
    match m.mResources key with
    | some res => some (.returned (some res), m)
    | none =>
      match factory with
      | .nullptr => some (.returned none, m)
      | .createResource =>
        if m.inProgress key then some (.thrown resourceCycleDetected, m)
        else
          let (initIter, m) := m.emplaceFront key
          Load.scopeExit (Manager.erase initIter)
            (.bind (createResource (fun dep => getInternal fuel dep .createResource) key
                (constructors key))
              fun res => tryEmplace key res) m

/-- `get<T>(id, flags)`. -/
def get (fuel : ℕ) (key : StorageKey τ) : Load τ ε (Option ℕ) :=
  getInternal constructors fuel key .createResource

/-- A call of `get` from outside, which may throw. -/
def topLevel (fuel : ℕ) (m : Manager τ) (key : StorageKey τ) : Option (Manager τ) :=
  (get constructors fuel key m).map Prod.snd

end Get

end Mccpp.Model.Loading
