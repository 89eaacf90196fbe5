import Intercept.Interest.Basic

/-!
# Intercept.Broker.Registry

Who is registered, and who wants to see a packet.

1. An extension has one registration at a time; a second one replaces the
   first together with all its clients. Every registration is a session of its
   own, numbered from 1, and numbers are never used again.
2. Each interest of a registration is a client. Clients stand in buckets, one
   per kind, the highest priority first and equal ones in the order in which
   they came. No bucket is empty.
3. A tank packet is matched against the bucket of its type and the bucket of
   its sub-type, every other packet against the bucket of its type. The clients
   found are put in one order: priority, then registration.
4. Places and sessions are numbered without bound. What counts events wraps at
   64 bits, and ids of packets do; these numbers would too, but only after
   `2 ^ 64` clients or registrations, which nobody lives to see.
-/

namespace Intercept

/-- One interest of a registered extension. -/
structure Client where
  ext : String
  interest : Interest
  /-- Place in the order of registration, from 1. -/
  seq : Nat
  /-- The session that the interest belongs to. -/
  session : Nat
deriving DecidableEq, Repr

namespace Client

/-- What a chain remembers of a client that it has visited. -/
def key (c : Client) : String × InterestKey := (c.ext, c.interest.key)

/-- Whether `c` is served no later than `d`. -/
def precedes (c d : Client) : Bool :=
  d.interest.priority < c.interest.priority ∨
    (c.interest.priority = d.interest.priority ∧ c.seq ≤ d.seq)

end Client

/-- One registered extension. -/
structure Registration where
  ext : String
  session : Nat
  interests : List Interest
deriving DecidableEq, Repr

/-- Everyone who is registered. -/
structure Registry where
  /-- In the order of their sessions. -/
  registrations : List Registration := []
  buckets : List (InterestKind × List Client) := []
  /-- The last number given to a client. -/
  lastSeq : Nat := 0
  /-- The last number given to a session. -/
  lastSession : Nat := 0
deriving DecidableEq, Repr

namespace Registry

/-! ## Looking up -/

/-- The registration of an extension. -/
def get? (r : Registry) (ext : String) : Option Registration := r.registrations.find? (·.ext = ext)

/-- Whether the extension is registered. -/
def contains (r : Registry) (ext : String) : Bool := (r.get? ext).isSome

/-- Whether the session is the registration of the extension. -/
def isCurrent (r : Registry) (ext : String) (session : Nat) : Bool :=
  (r.get? ext).any (·.session = session)

/-- How many extensions are registered. -/
def size (r : Registry) : Nat := r.registrations.length

/-- The clients of one kind, in the order of service. -/
def bucket (r : Registry) (kind : InterestKind) : List Client := (r.buckets.lookup kind).getD []

/-- The clients whose kind covers a packet, bucket by bucket. -/
def covering (r : Registry) (p : Packet) : List Client :=
  r.bucket (.net p.type) ++
    match p.type, p.tank? with
    | .tankPacket, some t => r.bucket (.tank t.type)
    | _, _ => []

/-- The clients that want to see a packet, in the order of service. -/
def matching (r : Registry) (p : Packet) (direction : Direction) : List Client :=
  ((r.covering p).filter (·.interest.accepts p direction)).mergeSort Client.precedes

/-! ## Registering -/

/-- Put a client behind all those of at least its priority. -/
def insertClient (c : Client) : List Client → List Client
  | [] => [c]
  | d :: ds =>
    if c.interest.priority ≤ d.interest.priority then d :: insertClient c ds else c :: d :: ds

/-- Put a client into the bucket of its kind. -/
def addClient (c : Client) : List (InterestKind × List Client) → List (InterestKind × List Client)
  | [] => [(c.interest.kind, [c])]
  | (kind, cs) :: rest =>
    if kind = c.interest.kind then (kind, insertClient c cs) :: rest
    else (kind, cs) :: addClient c rest

/-- Add the interests of a session one after another. -/
def addInterests (r : Registry) (ext : String) (session : Nat) : List Interest → Registry
  | [] => r
  | i :: is =>
    let seq := r.lastSeq + 1
    addInterests
      { r with lastSeq := seq, buckets := addClient ⟨ext, i, seq, session⟩ r.buckets }
      ext session is

/-- Take an extension and its clients out; nothing happens if it is not there. -/
def remove (r : Registry) (ext : String) : Registry :=
  { r with
    registrations := r.registrations.filter (·.ext ≠ ext)
    buckets := (r.buckets.map fun (kind, cs) => (kind, cs.filter (·.ext ≠ ext))).filter (·.2 ≠ []) }

/-- Register an extension in the place of an earlier registration of that name. The number of the
new session is the `lastSession` of the result. -/
def register (r : Registry) (ext : String) (interests : List Interest) : Registry :=
  let session := r.lastSession + 1
  let added := addInterests { r.remove ext with lastSession := session } ext session interests
  { added with registrations := added.registrations ++ [⟨ext, session, interests⟩] }

/-- The registration of an extension and the registry without it. -/
def unregister? (r : Registry) (ext : String) : Option (Registration × Registry) :=
  (r.get? ext).map fun old => (old, r.remove ext)

/-- As `unregister?`, but only while the session is current: a replaced session must not take its
successor out. -/
def unregisterSession? (r : Registry) (ext : String) (session : Nat) :
    Option (Registration × Registry) :=
  if r.isCurrent ext session then r.unregister? ext else none

end Registry

end Intercept
