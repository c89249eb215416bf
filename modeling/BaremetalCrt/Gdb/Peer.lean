/-
# BaremetalCrt.Gdb.Peer — the stub at the other end, and what is under way between the two.

The stub is any program that takes what the host sent byte by byte and in its own time: it acknowledges
each intact frame and answers it, and says of a running target what the target prints and that it has
stopped (`StubStep`).  A link conforms when each of the host's system calls is some steps of such a stub
and the call's own effect on the two queues (`Conforms`).

Over the bytes stands the stub as it is meant: commands and interrupts go in, acknowledgements and
packets come out (`DialogStep`), and every step of the bytes is a step or a pause of these
(`Shows.stubStep`).

What a stub may answer is said by the command alone (`StubAnswers`): to a command on memory one packet,
whatever it says; to a reset `OK`, from OpenOCD with text in front of it; to a run text and a stop reply; to
the resynchronisation an empty packet. An interrupt of a target that is halted may draw a stop reply that
belongs to no command. `InStep` says that nothing is under way but acknowledgements, one for each packet
that the stub has not seen acknowledged.
-/
import BaremetalCrt.Gdb.Frame
import BaremetalCrt.Gdb.Remote
import Mathlib.Logic.Relation

namespace BaremetalCrt

open Lib

variable {σ : Type}

/-! ## What the stub may answer -/

/-- `vMustReplyEmpty`, the command of the resynchronisation: a stub answers it with an empty packet. -/
def resyncCmd : List UInt8 := ascii "vMustReplyEmpty"

/-- The commands on memory: `m` reads, `M` and `X` write. -/
def IsMemoryCmd (cmd : List UInt8) : Prop :=
  cmd.head? = some 0x6d ∨ cmd.head? = some 0x4d ∨ cmd.head? = some 0x58

instance (cmd : List UInt8) : Decidable (IsMemoryCmd cmd) := inferInstanceAs (Decidable (_ ∨ _ ∨ _))

/-- A packet `O..` with text for the console. `OK` begins with the same letter and is none. -/
def IsConsole (body : List UInt8) : Prop := body.head? = some 0x4f ∧ cstr body ≠ ascii "OK"

/-- A stop reply: `T..` with the signal, or `W..` when the program has ended. -/
def IsStop (body : List UInt8) : Prop := body.head? = some 0x54 ∨ body.head? = some 0x57

/-- A packet that answers a command, and whether it is the last one to do so. -/
inductive StubAnswers (cmd : List UInt8) (p : Packet) : Bool → Prop
  | memory (h : IsMemoryCmd cmd) : StubAnswers cmd p true
  | console (h : cmd = openocdResetCmd) (hp : IsConsole p.body) : StubAnswers cmd p false
  | ok (h : cmd = openocdResetCmd ∨ cmd = qemuResetCmd) (hp : p.body = ascii "OK") : StubAnswers cmd p true
  | resync (h : cmd = resyncCmd) (hp : p.body = []) : StubAnswers cmd p true
  | running (h : cmd = runCmd) (hp : p.body.head? = some 0x4f) : StubAnswers cmd p false
  | stopped (h : cmd = runCmd) (hp : IsStop p.body) : StubAnswers cmd p true

/-- A packet of the stub, with the number and the text of the command that it answers; none for the
packet that an interrupt of a halted target may draw. -/
structure Reply where
  cause : Option (Nat × List UInt8)
  packet : Packet

/-! ## The stub on bytes -/

/-- The target is halted, or a command with its number is being answered. -/
inductive StubMode where
  | halted
  | busy (n : Nat) (cmd : List UInt8)
  deriving DecidableEq, Repr

/-- The two queues, and the stub: how many commands it has taken, how many `+` it has put out since its
last packet, and what it has put out and seen acknowledged since the start. -/
structure World where
  toStub : List UInt8
  toHost : List UInt8
  mode : StubMode
  taken : Nat
  trail : Nat
  put : List Reply
  acked : Nat

/-- The stub sends the packet of a reply and goes on in `mode`: the packet comes behind what is under way to
the host. -/
def World.emit (w : World) (r : Reply) (mode : StubMode) : World :=
  { w with toHost := w.toHost ++ r.packet.bytes, mode := mode, trail := 0, put := w.put ++ [r] }

/-- A step of the stub: it takes an acknowledgement, a command when it is idle, or an interrupt, and puts a
reply to the command that it is at. -/
inductive StubStep : World → World → Prop
  | ack {w : World} {rest : List UInt8} (h : w.toStub = chPlus :: rest) :
      StubStep w { w with toStub := rest, acked := w.acked + 1 }
  | take {w : World} {body rest : List UInt8} (idle : w.mode = .halted)
      (h : unpack w.toStub = some (body, rest)) :
      StubStep w { w with
        toStub := rest, toHost := w.toHost ++ [chPlus], mode := .busy w.taken (unescape body),
        taken := w.taken + 1, trail := w.trail + 1 }
  | reply {w : World} {n : Nat} {cmd : List UInt8} {p : Packet} {last : Bool}
      (busy : w.mode = .busy n cmd) (h : StubAnswers cmd p last)
      (short : w.trail + p.bytes.length ≤ buflen) :
      StubStep w (w.emit ⟨some (n, cmd), p⟩ (if last then .halted else w.mode))
  | interrupt {w : World} {rest : List UInt8} (h : w.toStub = 0x03 :: rest)
      (mode : w.mode = .halted ∨ ∃ n, w.mode = .busy n runCmd) : StubStep w { w with toStub := rest }
  | late {w : World} {rest : List UInt8} {p : Packet} (h : w.toStub = 0x03 :: rest)
      (idle : w.mode = .halted) (stop : IsStop p.body) (short : w.trail + p.bytes.length ≤ buflen) :
      StubStep w ({ w with toStub := rest }.emit ⟨none, p⟩ .halted)

/-- Steps of the stub, of any number. The host sees only what they have put on the socket. -/
abbrev StubSteps : World → World → Prop := Relation.ReflTransGen StubStep

/-! ## The host's calls -/

/-- A `recv` of the host, with what the stub did before it. -/
inductive HostRecv (w : World) : Received → World → Prop
  | byte {w₁ : World} {b : UInt8} {rest : List UInt8} (steps : StubSteps w w₁)
      (h : w₁.toHost = b :: rest) : HostRecv w (.byte b) { w₁ with toHost := rest }
  | blocked {w₁ : World} (steps : StubSteps w w₁) : HostRecv w .blocked w₁

/-- A `send` of the host while the stub may take steps: all bytes go out or none do. -/
inductive HostSend (w : World) (bs : List UInt8) : Sent → World → Prop
  | count {w₁ : World} (steps : StubSteps w w₁) :
      HostSend w bs (.count bs.length) { w₁ with toStub := w₁.toStub ++ bs }
  | blocked {w₁ : World} (steps : StubSteps w w₁) : HostSend w bs .blocked w₁

/-- Behind the link is such a stub: whatever system call the host makes, the world moves on by the stub's
steps and that call's own effect. -/
structure Conforms (link : Link σ) (view : σ → World) : Prop where
  recv : ∀ l, HostRecv (view l) (link.recv l).1 (view (link.recv l).2)
  send : ∀ bs l, HostSend (view l) bs (link.send bs l).1 (view (link.send bs l).2)
  calloc : ∀ l, StubSteps (view l) (view (link.calloc l).2)
  stack : ∀ l, StubSteps (view l) (view (link.stack l).2)

/-- Both ends are at rest and agree: the target is halted, nothing is unread, no command is under way,
and every packet has its one `+`, read or under way. -/
structure InStep (w : World) : Prop where
  halted : w.mode = .halted
  read : w.toHost = []
  acks : ∀ b ∈ w.toStub, b = chPlus
  acked : w.acked + w.toStub.length = w.put.length

/-! ## The stub on messages -/

/-- What the host sends, acknowledgements apart: the interrupt character, or the frame of a command. -/
inductive Item where
  | interrupt
  | command (cmd : List UInt8)

/-- The item, as it goes over the socket. -/
def Item.bytes : Item → List UInt8
  | .interrupt => [0x03]
  | .command cmd => (Packet.command cmd).bytes

/-- What the stub sends: the acknowledgement of a command, or a packet. -/
inductive Out where
  | plus
  | packet (r : Reply)

/-- What the stub sends, as it goes over the socket. -/
def Out.bytes : Out → List UInt8
  | .plus => [chPlus]
  | .packet r => r.packet.bytes

/-- The reply, if it is one and not an acknowledgement. -/
def Out.reply? : Out → Option Reply
  | .plus => none
  | .packet r => some r

/-- The stub on messages: how many commands it took, what it is at, what is under way to it but for
acknowledgements, and what is under way to the host. -/
structure Dialog where
  taken : Nat
  mode : StubMode
  items : List Item
  unread : List Out

/-- A step of the stub on messages. Acknowledgements of the host are none, and one interrupt of a halted
target may draw a stop reply that nobody waits for. -/
inductive DialogStep : Dialog → Dialog → Prop
  | take {n : Nat} {cmd : List UInt8} {items : List Item} {unread : List Out} :
      DialogStep ⟨n, .halted, .command cmd :: items, unread⟩ ⟨n + 1, .busy n cmd, items, unread ++ [.plus]⟩
  | reply {k n : Nat} {cmd : List UInt8} {p : Packet} {last : Bool} {items : List Item}
      {unread : List Out} (h : StubAnswers cmd p last) :
      DialogStep ⟨k, .busy n cmd, items, unread⟩
        ⟨k, if last then .halted else .busy n cmd, items, unread ++ [.packet ⟨some (n, cmd), p⟩]⟩
  | interrupt {k : Nat} {mode : StubMode} {items : List Item} {unread : List Out}
      (h : mode = .halted ∨ ∃ n, mode = .busy n runCmd) :
      DialogStep ⟨k, mode, .interrupt :: items, unread⟩ ⟨k, mode, items, unread⟩
  | late {k : Nat} {p : Packet} {items : List Item} {unread : List Out} (stop : IsStop p.body) :
      DialogStep ⟨k, .halted, .interrupt :: items, unread⟩
        ⟨k, .halted, items, unread ++ [.packet ⟨none, p⟩]⟩

/-- These bytes are these messages, with so many acknowledgements between them. -/
inductive Queue : Nat → List UInt8 → List Item → Prop
  | nil : Queue 0 [] []
  | ack {i : Nat} {bs : List UInt8} {items : List Item} (rest : Queue i bs items) :
      Queue (i + 1) (chPlus :: bs) items
  | item {i : Nat} {bs : List UInt8} {items : List Item} (x : Item) (rest : Queue i bs items) :
      Queue i (x.bytes ++ bs) (x :: items)

theorem Queue.snoc {i : Nat} {bs : List UInt8} {items : List Item} (h : Queue i bs items) (x : Item) :
    Queue i (bs ++ x.bytes) (items ++ [x]) := by
  induction h with
  | nil =>
    have hone := Queue.item x .nil
    rwa [List.append_nil] at hone
  | ack rest ih => exact .ack ih
  | item y rest ih =>
    rw [List.append_assoc]
    exact .item y ih

theorem Queue.snocAck {i : Nat} {bs : List UInt8} {items : List Item} (h : Queue i bs items) :
    Queue (i + 1) (bs ++ [chPlus]) items := by
  induction h with
  | nil => exact .ack .nil
  | ack rest ih => exact .ack ih
  | item y rest ih =>
    rw [List.append_assoc]
    exact .item y ih

theorem queue_nil_iff {i : Nat} {bs : List UInt8} : Queue i bs [] ↔ i = bs.length ∧ ∀ b ∈ bs, b = chPlus := by
  constructor
  · intro h
    generalize hitems : ([] : List Item) = items at h
    induction h with
    | nil => exact ⟨rfl, fun b hb => by cases hb⟩
    | ack rest ih =>
      obtain ⟨hlen, hall⟩ := ih hitems
      refine ⟨by rw [hlen]; rfl, fun b hb => ?_⟩
      rcases List.mem_cons.mp hb with rfl | hb
      · rfl
      · exact hall b hb
    | item x rest => cases hitems
  · rintro ⟨rfl, hall⟩
    induction bs with
    | nil => exact .nil
    | cons b bs ih =>
      obtain rfl : b = chPlus := hall b (List.mem_cons_self ..)
      exact .ack (ih fun c hc => hall c (List.mem_cons_of_mem _ hc))

/-- What is in front of the queue decides how it goes on. -/
theorem Queue.of_ack {i : Nat} {bs : List UInt8} {items : List Item} (h : Queue i (chPlus :: bs) items) :
    ∃ j, i = j + 1 ∧ Queue j bs items := by
  generalize hall : chPlus :: bs = all at h
  cases h with
  | nil => cases hall
  | ack rest =>
    obtain ⟨-, rfl⟩ := List.cons.inj hall
    exact ⟨_, rfl, rest⟩
  | item x rest =>
    cases x with
    | interrupt => exact absurd (List.cons.inj hall).1 (by decide)
    | command cmd => exact absurd (List.cons.inj hall).1 (by decide)

theorem Queue.of_interrupt {i : Nat} {bs : List UInt8} {items : List Item}
    (h : Queue i (0x03 :: bs) items) : ∃ rest, items = .interrupt :: rest ∧ Queue i bs rest := by
  generalize hall : 0x03 :: bs = all at h
  cases h with
  | nil => cases hall
  | ack rest => exact absurd (List.cons.inj hall).1 (by decide)
  | item x rest =>
    cases x with
    | interrupt =>
      obtain ⟨-, rfl⟩ := List.cons.inj hall
      exact ⟨_, rfl, rest⟩
    | command cmd => exact absurd (List.cons.inj hall).1 (by decide)

theorem Queue.of_unpack {i : Nat} {bs body rest : List UInt8} {items : List Item} (h : Queue i bs items)
    (hunpack : unpack bs = some (body, rest)) :
    ∃ items', items = .command (unescape body) :: items' ∧ Queue i rest items' := by
  cases h with
  | nil => cases hunpack
  | ack rest => cases hunpack
  | item x hrest =>
    cases x with
    | interrupt => cases hunpack
    | command cmd =>
      rw [Item.bytes, unpack_bytes] at hunpack
      obtain ⟨rfl, rfl⟩ := Prod.mk.inj (Option.some.inj hunpack)
      refine ⟨_, ?_, hrest⟩
      rw [show (Packet.command cmd).body = escape cmd from rfl, unescape_escape]

/-! ## Bytes and messages -/

/-- Behind `k` acknowledgements, every packet with those before it fits the host's buffer. -/
def Short : Nat → List Out → Prop
  | _, [] => True
  | k, .plus :: us => Short (k + 1) us
  | k, .packet r :: us => k + r.packet.bytes.length ≤ buflen ∧ Short 0 us

/-- How many acknowledgements are behind the last packet, counted on from `k`. -/
def lead : Nat → List Out → Nat
  | k, [] => k
  | k, .plus :: us => lead (k + 1) us
  | _, .packet _ :: us => lead 0 us

theorem Short.mono {us : List Out} : ∀ {j k : Nat}, j ≤ k → Short k us → Short j us ∧ lead j us ≤ lead k us := by
  induction us with
  | nil => exact fun hjk _ => ⟨trivial, hjk⟩
  | cons u us ih =>
    intro j k hjk h
    cases u with
    | plus => exact ih (Nat.succ_le_succ hjk) h
    | packet r => exact ⟨⟨Nat.le_trans (Nat.add_le_add_right hjk _) h.1, h.2⟩, Nat.le_refl _⟩

theorem Short.plus {us : List Out} : ∀ {k : Nat}, Short k us →
    Short k (us ++ [.plus]) ∧ lead k (us ++ [.plus]) = lead k us + 1 := by
  induction us with
  | nil => exact fun _ => ⟨trivial, rfl⟩
  | cons u us ih =>
    intro k h
    cases u with
    | plus => exact ih h
    | packet r => exact ⟨⟨h.1, (ih h.2).1⟩, (ih h.2).2⟩

theorem Short.packet {us : List Out} {r : Reply} : ∀ {k : Nat}, Short k us →
    lead k us + r.packet.bytes.length ≤ buflen →
    Short k (us ++ [.packet r]) ∧ lead k (us ++ [.packet r]) = 0 := by
  induction us with
  | nil => exact fun _ hfit => ⟨⟨hfit, trivial⟩, rfl⟩
  | cons u us ih =>
    intro k h hfit
    cases u with
    | plus => exact ih h hfit
    | packet r' => exact ⟨⟨h.1, (ih h.2 hfit).1⟩, (ih h.2 hfit).2⟩

/-- The world is this dialog: the host has read `done`, sent `m` acknowledgements, is in the middle of a
packet with `front` to come, and has read `k` acknowledgements since the last packet. -/
structure Shows (w : World) (front : List UInt8) (k m : Nat) (done : List Reply) (a : Dialog) : Prop where
  mode : w.mode = a.mode
  taken : w.taken = a.taken
  toHost : w.toHost = front ++ a.unread.flatMap Out.bytes
  queue : ∃ i, Queue i w.toStub a.items ∧ w.acked + i = m
  put : w.put = done ++ a.unread.filterMap Out.reply?
  short : Short k a.unread
  lead : lead k a.unread ≤ w.trail

section Refine

variable {w w' : World} {front : List UInt8} {k m : Nat} {done : List Reply} {a : Dialog}

theorem Shows.put_prefix (h : Shows w front k m done a) : done <+: w.put := ⟨_, h.put.symm⟩

/-- A packet that goes out is one more to be read. -/
theorem Shows.emit {items : List Item} {unread : List Out} {r : Reply} {mode mode' : StubMode} {n : Nat}
    (h : Shows w front k m done ⟨n, mode, items, unread⟩) (short : w.trail + r.packet.bytes.length ≤ buflen) :
    Shows (w.emit r mode') front k m done ⟨n, mode', items, unread ++ [.packet r]⟩ := by
  have hfit : BaremetalCrt.lead k unread + r.packet.bytes.length ≤ buflen :=
    Nat.le_trans (Nat.add_le_add_right h.lead _) short
  obtain ⟨hshort, hlead⟩ := Short.packet h.short hfit
  refine ⟨rfl, h.taken, ?_, h.queue, ?_, hshort, Nat.le_of_eq hlead⟩
  · show w.toHost ++ r.packet.bytes = _
    rw [h.toHost]
    simp [Out.bytes]
  · show w.put ++ [r] = _
    rw [h.put]
    simp [Out.reply?]

/-- **A step of the stub on its bytes** is a step of the dialog, or none when an acknowledgement is
read. -/
theorem Shows.stubStep (h : Shows w front k m done a) (step : StubStep w w') :
    ∃ a', Shows w' front k m done a' ∧ (DialogStep a a' ∨ a' = a) := by
  obtain ⟨taken, mode, items, unread⟩ := a
  obtain ⟨i, hqueue, hacked⟩ := h.queue
  cases step with
  | ack hfront =>
    rw [hfront] at hqueue
    obtain ⟨j, rfl, hrest⟩ := hqueue.of_ack
    exact ⟨_, ⟨h.mode, h.taken, h.toHost, ⟨j, hrest, by rw [← hacked]; exact Nat.succ_add_eq_add_succ ..⟩,
      h.put, h.short, h.lead⟩, Or.inr rfl⟩
  | take idle hunpack =>
    obtain ⟨items', rfl, hrest⟩ := hqueue.of_unpack hunpack
    obtain rfl : mode = .halted := h.mode.symm.trans idle
    obtain ⟨hshort, hlead⟩ := Short.plus h.short
    refine ⟨_, ⟨?_, ?_, ?_, ⟨i, hrest, hacked⟩, ?_, hshort, ?_⟩, Or.inl .take⟩
    · exact congrArg (StubMode.busy · _) h.taken
    · exact congrArg (· + 1) h.taken
    · show w.toHost ++ [chPlus] = _
      rw [h.toHost]
      simp [Out.bytes]
    · rw [h.put]
      simp [Out.reply?]
    · rw [hlead]
      exact Nat.succ_le_succ h.lead
  | reply busy hanswers short =>
    obtain rfl : mode = .busy _ _ := h.mode.symm.trans busy
    rw [busy]
    exact ⟨_, h.emit short, Or.inl (.reply hanswers)⟩
  | @interrupt rest hfront hmode =>
    rw [hfront] at hqueue
    obtain ⟨items', rfl, hrest⟩ := hqueue.of_interrupt
    rw [h.mode] at hmode
    have hread : Shows { w with toStub := rest } front k m done ⟨taken, mode, items', unread⟩ :=
      ⟨h.mode, h.taken, h.toHost, ⟨i, hrest, hacked⟩, h.put, h.short, h.lead⟩
    exact ⟨_, hread, Or.inl (.interrupt hmode)⟩
  | @late rest p hfront idle stop short =>
    rw [hfront] at hqueue
    obtain ⟨items', rfl, hrest⟩ := hqueue.of_interrupt
    obtain rfl : mode = .halted := h.mode.symm.trans idle
    have hread : Shows { w with toStub := rest } front k m done ⟨taken, .halted, items', unread⟩ :=
      ⟨h.mode, h.taken, h.toHost, ⟨i, hrest, hacked⟩, h.put, h.short, h.lead⟩
    have hput : Shows (World.emit { w with toStub := rest } ⟨none, p⟩ .halted) front k m done
        ⟨taken, .halted, items', unread ++ [.packet ⟨none, p⟩]⟩ := hread.emit short
    exact ⟨_, hput, Or.inl (.late stop)⟩

/-- A property of dialogs that a step of the stub keeps. -/
def Kept (P : Dialog → Prop) : Prop := ∀ a a', P a → DialogStep a a' → P a'

theorem Shows.stubSteps {P : Dialog → Prop} (hP : Kept P) (h : Shows w front k m done a) (ha : P a)
    (steps : StubSteps w w') : ∃ a', Shows w' front k m done a' ∧ P a' := by
  induction steps with
  | refl => exact ⟨a, h, ha⟩
  | tail _ step ih =>
    obtain ⟨a₁, h₁, ha₁⟩ := ih
    obtain ⟨a₂, h₂, hstep | rfl⟩ := h₁.stubStep step
    · exact ⟨a₂, h₂, hP _ _ ha₁ hstep⟩
    · exact ⟨a₂, h₂, ha₁⟩

/-- The dialog that is over: `n` commands were answered, and nothing is under way in either direction. -/
def Dialog.idle (n : Nat) : Dialog := ⟨n, .halted, [], []⟩

/-- Both ends are in step just when they show a dialog that is over. -/
theorem inStep_iff : InStep w ↔ Shows w [] 0 w.put.length w.put (.idle w.taken) := by
  constructor
  · rintro ⟨hmode, hread, hacks, hacked⟩
    exact ⟨hmode, rfl, hread, ⟨_, queue_nil_iff.mpr ⟨rfl, hacks⟩, hacked⟩, (List.append_nil _).symm,
      trivial, Nat.zero_le _⟩
  · intro h
    obtain ⟨i, hqueue, hacked⟩ := h.queue
    obtain ⟨rfl, hacks⟩ := queue_nil_iff.mp hqueue
    exact ⟨h.mode, h.toHost, hacks, hacked⟩

end Refine

/-! ## Reading one packet -/

/-- With at most `j` acknowledgements in front, a packet comes next; what is known behind it depends on
the packet. -/
structure Delivers (Pre : Nat → Dialog → Prop) (Post : Reply → Dialog → Prop) : Prop where
  pre : ∀ j, Kept (Pre j)
  post : ∀ r, Kept (Post r)
  plus : ∀ j a us, Pre j a → a.unread = .plus :: us → ∃ i, j = i + 1 ∧ Pre i { a with unread := us }
  packet : ∀ j a r us, Pre j a → a.unread = .packet r :: us → Post r { a with unread := us }

section Reading

variable {link : Link σ} {view : σ → World} (conf : Conforms link view)

include conf

/-- What a `recv` finds. -/
theorem Conforms.recv_cases (l : σ) :
    (∃ (b : UInt8) (rest : List UInt8) (w : World), StubSteps (view l) w ∧ w.toHost = b :: rest ∧
        link.recv l = (.byte b, (link.recv l).2) ∧ view (link.recv l).2 = { w with toHost := rest }) ∨
      (link.recv l).1 = .blocked ∧ StubSteps (view l) (view (link.recv l).2) := by
  have h := conf.recv l
  generalize hr : (link.recv l).1 = r at h
  generalize hw : view (link.recv l).2 = w at h
  cases h with
  | byte steps hhost => exact Or.inl ⟨_, _, _, steps, hhost, Prod.ext hr rfl, rfl⟩
  | blocked steps => exact Or.inr ⟨rfl, steps⟩

variable {m : Nat}

/-- The rest of a packet arrives. -/
theorem offers_front {k : Nat} {done : List Reply} {P : Dialog → Prop} (hP : Kept P) (front : List UInt8) :
    ∀ (l : σ) (a : Dialog), Shows (view l) front k m done a → P a →
      Offers link (fun l' => done <+: (view l').put)
        (fun l' => ∃ a', Shows (view l') [] k m done a' ∧ P a') front l := by
  induction front with
  | nil => exact fun l a h ha => .done ⟨a, h, ha⟩
  | cons b front ih =>
    intro l a h ha
    obtain ⟨b', rest, w, steps, hhost, hrecv, hview⟩ | ⟨never, steps⟩ := conf.recv_cases l
    · obtain ⟨a₁, h₁, ha₁⟩ := h.stubSteps hP ha steps
      obtain ⟨rfl, rfl⟩ := List.cons.inj (hhost.symm.trans h₁.toHost)
      refine .next hrecv (ih _ a₁ ?_ ha₁)
      rw [hview]
      exact ⟨h₁.mode, h₁.taken, rfl, h₁.queue, h₁.put, h₁.short, h₁.lead⟩
    · obtain ⟨a₁, h₁, -⟩ := h.stubSteps hP ha steps
      exact .blocked never h₁.put_prefix

/-- The next packet arrives, behind its acknowledgements. -/
theorem offers_packet {done : List Reply} {Pre : Nat → Dialog → Prop} {Post : Reply → Dialog → Prop}
    (hpre : Delivers Pre Post) (j : Nat) :
    ∀ (k : Nat) (l : σ) (a : Dialog), k + j + 6 ≤ buflen → Shows (view l) [] k m done a → Pre j a →
      ∃ i r, i ≤ j ∧ k + i + r.packet.bytes.length ≤ buflen ∧
        Offers link (fun l' => done <+: (view l').put)
          (fun l' => ∃ a', Shows (view l') [] 0 m (done ++ [r]) a' ∧ Post r a')
          (List.replicate i chPlus ++ r.packet.bytes) l := by
  induction j using Nat.strong_induction_on with
  | _ j ih =>
    intro k l a hk h ha
    obtain ⟨b, rest, w, steps, hhost, hrecv, hview⟩ | ⟨never, steps⟩ := conf.recv_cases l
    · obtain ⟨a₁, h₁, ha₁⟩ := h.stubSteps (hpre.pre j) ha steps
      have hread : b :: rest = a₁.unread.flatMap Out.bytes := hhost.symm.trans h₁.toHost
      obtain ⟨n, mode, items, unread⟩ := a₁
      cases unread with
      | nil => cases hread
      | cons u us =>
        cases u with
        | plus =>
          obtain ⟨rfl, rfl⟩ := List.cons.inj hread
          obtain ⟨j', rfl, hj⟩ := hpre.plus j _ us ha₁ rfl
          have hpop : Shows (view (link.recv l).2) [] (k + 1) m done ⟨n, mode, items, us⟩ := by
            rw [hview]
            exact ⟨h₁.mode, h₁.taken, rfl, h₁.queue, h₁.put, h₁.short, h₁.lead⟩
          obtain ⟨i, r, hi, hroom, hoffers⟩ := ih j' (Nat.lt_succ_self j') (k + 1) _ _ (by omega) hpop hj
          exact ⟨i + 1, r, Nat.succ_le_succ hi, by omega, .next hrecv hoffers⟩
        | packet r =>
          -- the whole packet is there with its first byte
          obtain ⟨rfl, hrest⟩ : b = chDollar ∧
              rest = (r.packet.body ++ [chHash, r.packet.hi, r.packet.lo]) ++ us.flatMap Out.bytes :=
            List.cons.inj hread
          have hpost := hpre.packet j _ r us ha₁ rfl
          have hput : w.put = (done ++ [r]) ++ us.filterMap Out.reply? := by
            rw [h₁.put, List.append_assoc]
            rfl
          have hpop : Shows (view (link.recv l).2) (r.packet.body ++ [chHash, r.packet.hi, r.packet.lo]) 0 m
              (done ++ [r]) ⟨n, mode, items, us⟩ := by
            rw [hview]
            exact ⟨h₁.mode, h₁.taken, hrest, h₁.queue, hput, h₁.short.2, h₁.lead⟩
          refine ⟨0, r, Nat.zero_le j, h₁.short.1, .next hrecv ?_⟩
          apply (offers_front conf (hpre.post r) _ _ _ hpop hpost).mono
          intro l' hl'
          exact (List.prefix_append ..).trans hl'
    · obtain ⟨a₁, h₁, -⟩ := h.stubSteps (hpre.pre j) ha steps
      refine ⟨0, ⟨none, .of (ascii "OK") (by decide)⟩, Nat.zero_le j, ?_, .blocked never h₁.put_prefix⟩
      rw [Packet.length_bytes]
      exact Nat.le_trans (Nat.add_le_add_right (Nat.add_le_add_left (Nat.zero_le j) k) 6) hk

end Reading

end BaremetalCrt
