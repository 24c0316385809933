import RiscosBuilder.Library.ItemReader
import Mathlib.Data.List.DropRight

/-!
# The agent's telnet channel

`Telnet` of `files/anyvmd.py`: the socket, the scan that takes telnet framing
off the inbound stream, and the two ways the agent reads from what is left.
A byte string of Python 2 is a `List UInt8`.

The peer is a script.  It delivers a list of non-empty chunks, one to a `recv`,
and after the last of them either closes the connection in order or breaks it.
-/

namespace RiscosBuilder.Agent

open RiscosBuilder.Library

def NUL : UInt8 := 0x00
def LF : UInt8 := 0x0a
def CR : UInt8 := 0x0d

def IAC : UInt8 := 0xff
def DONT : UInt8 := 0xfe
def DO : UInt8 := 0xfd
def WONT : UInt8 := 0xfc
def WILL : UInt8 := 0xfb
def SB : UInt8 := 0xfa
def SE : UInt8 := 0xf0
def OPT_BINARY : UInt8 := 0x00

/-! ## The socket -/

/-- A result of `recv` that carries data; an empty one would be end of stream. -/
abbrev Chunk := { data : List UInt8 // data ≠ [] }

/-- The bytes that a list of chunks puts on the wire. -/
def wire (chunks : List Chunk) : List UInt8 :=
  (chunks.map Subtype.val).flatten

@[simp] theorem wire_nil : wire [] = [] := rfl

@[simp] theorem wire_cons (chunk : Chunk) (chunks : List Chunk) :
    wire (chunk :: chunks) = chunk.1 ++ wire chunks := rfl

@[simp] theorem wire_append (first second : List Chunk) :
    wire (first ++ second) = wire first ++ wire second := by
  simp [wire]

/-- How the inbound stream ends: `recv` returns `""`, or raises. -/
inductive Ending where
  | closed
  | broken
  deriving DecidableEq, Repr

/--
The connection as the agent meets it.  `arrivals` are the chunks `recv` has
still to deliver.  `sends` says of each coming `sendall` whether it returns;
once the list is used up they all do.  `sent` is what was handed to `sendall`.
-/
structure Socket where
  arrivals : List Chunk
  ending : Ending
  sends : List Bool
  sent : List UInt8

/-- `sock.recv(CHUNK)`; `none` is `socket.error`. -/
def Socket.recv (sock : Socket) : Option (List UInt8) × Socket :=
  match sock.arrivals, sock.ending with
  | chunk :: later, _ => (some chunk.1, { sock with arrivals := later })
  | [], .closed => (some [], sock)
  | [], .broken => (none, sock)

/-- `sock.sendall(data)`, and whether it returned. -/
def Socket.sendall (sock : Socket) (data : List UInt8) : Bool × Socket :=
  (sock.sends.headD true,
    { sock with sends := sock.sends.tail, sent := sock.sent ++ data })

@[simp] theorem Socket.sendall_arrivals (sock : Socket) (data : List UInt8) :
    (sock.sendall data).2.arrivals = sock.arrivals := rfl

@[simp] theorem Socket.sendall_ending (sock : Socket) (data : List UInt8) :
    (sock.sendall data).2.ending = sock.ending := rfl

@[simp] theorem Socket.sendall_sent (sock : Socket) (data : List UInt8) :
    (sock.sendall data).2.sent = sock.sent ++ data := rfl

/-! ## Decoding -/

/-- `Telnet._negotiate`: accept BINARY both ways, refuse everything else. -/
def negotiate (cmd opt : UInt8) : List UInt8 :=
  if opt = OPT_BINARY then
    if cmd = WILL then [IAC, DO, opt]
    else if cmd = DO then [IAC, WILL, opt]
    else []
  else if cmd = WILL then [IAC, DONT, opt]
  else if cmd = DO then [IAC, WONT, opt]
  else []

/-- The inner loop after `IAC SB`: what follows the first `IAC SE`, if any. -/
def skipSubnegotiation : List UInt8 → Option (List UInt8)
  | first :: second :: rest =>
      if first = IAC ∧ second = SE then some rest
      else skipSubnegotiation (second :: rest)
  | _ => none

/-- `nxt in (WILL, WONT, DO, DONT)`: the commands that take an option byte. -/
def IsNegotiation (cmd : UInt8) : Prop :=
  cmd = WILL ∨ cmd = WONT ∨ cmd = DO ∨ cmd = DONT

instance (cmd : UInt8) : Decidable (IsNegotiation cmd) :=
  inferInstanceAs (Decidable (_ ∨ _))

/-- What one turn of the scan appends to `out` and to `reply`. -/
structure Scanned where
  out : List UInt8
  reply : List (List UInt8)
  deriving DecidableEq, Repr

/--
One turn of the `while i < n` loop of `Telnet._fill`, from `data[i:]` to the
next `data[i:]`.  `none` stands for the turns that leave the loop: nothing is
left, or what is left goes to `self.raw` because its end has not arrived.
-/
def scanNext : List UInt8 → Option (Scanned × List UInt8)
  | [] => none
  | ch :: tail =>
      if ch ≠ IAC then some (⟨[ch], []⟩, tail)
      else
        match tail with
        | [] => none
        | nxt :: tail =>
            if nxt = IAC then some (⟨[IAC], []⟩, tail)
            else if IsNegotiation nxt then
              match tail with
              | [] => none
              | opt :: tail => some (⟨[], [negotiate nxt opt]⟩, tail)
            else if nxt = SB then
              match skipSubnegotiation tail with
              | none => none
              | some tail => some (⟨[], []⟩, tail)
            else some (⟨[], []⟩, tail)

/-- What is skipped ends in `IAC SE`. -/
theorem skipSubnegotiation_eq_some {input rest : List UInt8}
    (found : skipSubnegotiation input = some rest) :
    ∃ front, input = front ++ IAC :: SE :: rest := by
  induction input using skipSubnegotiation.induct with
  | case1 first second tail same =>
      obtain ⟨rfl, rfl⟩ := same
      rw [skipSubnegotiation, if_pos ⟨rfl, rfl⟩, Option.some.injEq] at found
      exact ⟨[], by rw [found]; rfl⟩
  | case2 first second tail other ih =>
      rw [skipSubnegotiation, if_neg other] at found
      obtain ⟨front, hfront⟩ := ih found
      exact ⟨first :: front, by rw [hfront]; rfl⟩
  | case3 input short =>
      unfold skipSubnegotiation at found
      split at found
      · exact absurd rfl (short _ _ _)
      · exact absurd found.symm (Option.some_ne_none _)

theorem skipSubnegotiation_length {input rest : List UInt8}
    (found : skipSubnegotiation input = some rest) :
    rest.length < input.length := by
  obtain ⟨front, rfl⟩ := skipSubnegotiation_eq_some found
  simp only [List.length_append, List.length_cons]
  omega

theorem skipSubnegotiation_append {input rest : List UInt8}
    (found : skipSubnegotiation input = some rest) (later : List UInt8) :
    skipSubnegotiation (input ++ later) = some (rest ++ later) := by
  induction input with
  | nil => simp [skipSubnegotiation] at found
  | cons first others ih =>
      cases others with
      | nil => simp [skipSubnegotiation] at found
      | cons second others =>
          unfold skipSubnegotiation at found
          simp only [List.cons_append]
          unfold skipSubnegotiation
          split at found
          · next matched =>
              cases found
              rw [if_pos matched]
          · next unmatched =>
              rw [if_neg unmatched]
              simpa using ih found

theorem IsNegotiation.ne_IAC {cmd : UInt8} (negotiation : IsNegotiation cmd) :
    cmd ≠ IAC := by
  rcases negotiation with rfl | rfl | rfl | rfl <;> decide

theorem scanNext_data {ch : UInt8} (plain : ch ≠ IAC) (tail : List UInt8) :
    scanNext (ch :: tail) = some (⟨[ch], []⟩, tail) := by
  simp [scanNext, plain]

theorem scanNext_escaped (tail : List UInt8) :
    scanNext (IAC :: IAC :: tail) = some (⟨[IAC], []⟩, tail) := by
  simp [scanNext]

theorem scanNext_negotiation {cmd : UInt8} (negotiation : IsNegotiation cmd)
    (opt : UInt8) (tail : List UInt8) :
    scanNext (IAC :: cmd :: opt :: tail) =
      some (⟨[], [negotiate cmd opt]⟩, tail) := by
  simp only [scanNext, ne_eq, not_true_eq_false, if_false,
    if_neg negotiation.ne_IAC]
  rw [if_pos negotiation]

theorem scanNext_subnegotiation {tail rest : List UInt8}
    (found : skipSubnegotiation tail = some rest) :
    scanNext (IAC :: SB :: tail) = some (⟨[], []⟩, rest) := by
  have hescape : ¬ SB = IAC := by decide
  have hoption : ¬ IsNegotiation SB := by decide
  simp [scanNext, found, hescape, hoption]

theorem scanNext_command {cmd : UInt8} (escape : cmd ≠ IAC)
    (negotiation : ¬ IsNegotiation cmd) (subnegotiation : cmd ≠ SB)
    (tail : List UInt8) :
    scanNext (IAC :: cmd :: tail) = some (⟨[], []⟩, tail) := by
  simp only [scanNext, ne_eq, not_true_eq_false, if_false, if_neg escape,
    if_neg subnegotiation]
  rw [if_neg negotiation]

/-- Everything one turn of the scan can find at the front of its input. -/
inductive Front : List UInt8 → Scanned → List UInt8 → Prop where
  | data {ch : UInt8} (plain : ch ≠ IAC) (rest : List UInt8) :
      Front (ch :: rest) ⟨[ch], []⟩ rest
  | escaped (rest : List UInt8) : Front (IAC :: IAC :: rest) ⟨[IAC], []⟩ rest
  | negotiation {cmd : UInt8} (negotiation : IsNegotiation cmd) (opt : UInt8)
      (rest : List UInt8) :
      Front (IAC :: cmd :: opt :: rest) ⟨[], [negotiate cmd opt]⟩ rest
  | subnegotiation {tail rest : List UInt8}
      (found : skipSubnegotiation tail = some rest) :
      Front (IAC :: SB :: tail) ⟨[], []⟩ rest
  | command {cmd : UInt8} (escape : cmd ≠ IAC)
      (negotiation : ¬ IsNegotiation cmd) (subnegotiation : cmd ≠ SB)
      (rest : List UInt8) :
      Front (IAC :: cmd :: rest) ⟨[], []⟩ rest

theorem Front.of_scanNext {input rest : List UInt8} {item : Scanned}
    (taken : scanNext input = some (item, rest)) : Front input item rest := by
  cases input with
  | nil => simp [scanNext] at taken
  | cons ch tail =>
      by_cases plain : ch = IAC
      · subst plain
        cases tail with
        | nil => simp [scanNext] at taken
        | cons nxt tail =>
            by_cases escape : nxt = IAC
            · subst escape
              rw [scanNext_escaped] at taken
              cases taken
              exact .escaped _
            · by_cases negotiation : IsNegotiation nxt
              · cases tail with
                | nil =>
                    simp only [scanNext, ne_eq, not_true_eq_false, if_false,
                      if_neg escape] at taken
                    rw [if_pos negotiation] at taken
                    cases taken
                | cons opt tail =>
                    rw [scanNext_negotiation negotiation] at taken
                    cases taken
                    exact .negotiation negotiation _ _
              · by_cases subnegotiation : nxt = SB
                · subst subnegotiation
                  cases found : skipSubnegotiation tail with
                  | none =>
                      simp only [scanNext, ne_eq, not_true_eq_false, if_false,
                        if_neg escape, found] at taken
                      rw [if_neg negotiation] at taken
                      simp at taken
                  | some after =>
                      rw [scanNext_subnegotiation found] at taken
                      cases taken
                      exact .subnegotiation found
                · rw [scanNext_command escape negotiation subnegotiation]
                    at taken
                  cases taken
                  exact .command escape negotiation subnegotiation _
      · rw [scanNext_data plain] at taken
        cases taken
        exact .data plain _

theorem Front.length_lt {input rest : List UInt8} {item : Scanned}
    (front : Front input item rest) : rest.length < input.length := by
  cases front with
  | subnegotiation found =>
      have hlt := skipSubnegotiation_length found
      simp only [List.length_cons]
      omega
  | _ => simp only [List.length_cons]; omega

theorem Front.scanNext_append {input rest : List UInt8} {item : Scanned}
    (front : Front input item rest) (later : List UInt8) :
    scanNext (input ++ later) = some (item, rest ++ later) := by
  cases front with
  | data plain => exact scanNext_data plain _
  | escaped => exact scanNext_escaped _
  | negotiation negotiation opt => exact scanNext_negotiation negotiation _ _
  | subnegotiation found =>
      exact scanNext_subnegotiation (skipSubnegotiation_append found later)
  | command escape negotiation subnegotiation =>
      exact scanNext_command escape negotiation subnegotiation _

/-- The scan of `Telnet._fill` as a reader of whole telnet items. -/
def scanner : ItemReader UInt8 Scanned where
  next := scanNext
  shrinks taken := (Front.of_scanNext taken).length_lt
  stable taken later := (Front.of_scanNext taken).scanNext_append later

/-- The three results of scanning `data`: `out`, `reply` and the new `raw`. -/
structure Scan where
  out : List UInt8
  reply : List (List UInt8)
  raw : List UInt8
  deriving DecidableEq, Repr

/-- The `while i < n` loop of `Telnet._fill` over `data`. -/
def scan (data : List UInt8) : Scan where
  out := (scanner.readAll data).1.flatMap Scanned.out
  reply := (scanner.readAll data).1.flatMap Scanned.reply
  raw := (scanner.readAll data).2

theorem scan_append (data later : List UInt8) :
    scan (data ++ later) =
      { out := (scan data).out ++ (scan ((scan data).raw ++ later)).out
        reply := (scan data).reply ++ (scan ((scan data).raw ++ later)).reply
        raw := (scan ((scan data).raw ++ later)).raw } := by
  simp [scan, scanner.readAll_append data later]

theorem scan_stuck {data : List UInt8} (stuck : scanNext data = none) :
    scan data = ⟨[], [], data⟩ := by
  simp [scan, scanner.readAll_of_none stuck]

theorem scanNext_raw (data : List UInt8) : scanNext (scan data).raw = none :=
  scanner.next_tail data

theorem scan_of_scanNext {data rest : List UInt8} {item : Scanned}
    (taken : scanNext data = some (item, rest)) :
    scan data =
      { out := item.out ++ (scan rest).out
        reply := item.reply ++ (scan rest).reply
        raw := (scan rest).raw } := by
  simp [scan, scanner.readAll_of_some taken]

@[simp] theorem scan_nil : scan [] = ⟨[], [], []⟩ := rfl

/-! ## The channel -/

/--
A `Telnet` object: decoded payload waiting in `buf`, and in `raw` the bytes
that do not make up a whole item yet.
-/
structure Telnet where
  sock : Socket
  buf : List UInt8
  raw : List UInt8
  eof : Bool
  undecodable : scanNext raw = none

namespace Telnet

/-- `Telnet(sock)`. -/
def connect (sock : Socket) : Telnet :=
  ⟨sock, [], [], false, rfl⟩

/-- `Telnet._fill`. -/
def fill (chan : Telnet) : Telnet :=
  match chan.sock.recv with
  | (none, sock) => { chan with sock, eof := true }
  | (some [], sock) =>
      ⟨sock, chan.buf ++ chan.raw, [], true, rfl⟩
  | (some data, sock) =>
      let scanned := scan (chan.raw ++ data)
      { sock :=
          if scanned.reply.isEmpty then sock
          else (sock.sendall scanned.reply.flatten).2
        buf := chan.buf ++ scanned.out
        raw := scanned.raw
        eof := chan.eof
        undecodable := scanNext_raw _ }

/-- The `while` loops around `_fill`: pull chunks while `short` and not `eof`. -/
def fillWhile (short : List UInt8 → Bool) : Nat → Telnet → Telnet
  | 0, chan => chan
  | fuel + 1, chan =>
      if short chan.buf && !chan.eof then fillWhile short fuel chan.fill
      else chan

/-- Every `_fill` uses up a chunk or meets the end, so this many turns do. -/
def fillBound (chan : Telnet) : Nat :=
  chan.sock.arrivals.length + 1

/-- `Telnet.read`. -/
def read (chan : Telnet) (want : Nat) : List UInt8 × Telnet :=
  let chan := fillWhile (fun buf => decide (buf.length < want))
    chan.fillBound chan
  (chan.buf.take want, { chan with buf := chan.buf.drop want })

/-- `self.buf.find(sep)` for a separator of one byte. -/
def find (buf : List UInt8) (sep : UInt8) : Option Nat :=
  buf.findIdx? (· == sep)

/-- `line.rstrip("\r")`. -/
def rstripCR (line : List UInt8) : List UInt8 :=
  line.rdropWhile (· == CR)

/-- `if rest[:1] in ("\n", "\x00"): rest = rest[1:]`. -/
def dropTerminator (rest : List UInt8) : List UInt8 :=
  if rest.head? = some LF ∨ rest.head? = some NUL then rest.drop 1 else rest

/-- The `for sep` loop of `Telnet.read_line`: the line and the new `buf`. -/
def splitLine (buf : List UInt8) : Option (List UInt8 × List UInt8) :=
  match (find buf LF).or (find buf CR) with
  | none => none
  | some pos =>
      some (rstripCR (buf.take pos), dropTerminator (buf.drop (pos + 1)))

/-- `Telnet.read_line`. -/
def readLine (chan : Telnet) : Option (List UInt8) × Telnet :=
  let chan := fillWhile (fun buf => (splitLine buf).isNone) chan.fillBound chan
  match splitLine chan.buf with
  | some (line, rest) => (some line, { chan with buf := rest })
  | none =>
      (if chan.buf = [] then none else some chan.buf, { chan with buf := [] })

/-- `data.replace(IAC, IAC + IAC)`. -/
def escape (data : List UInt8) : List UInt8 :=
  data.flatMap fun ch => if ch = IAC then [IAC, IAC] else [ch]

/-- `Telnet.write`. -/
def write (chan : Telnet) (data : List UInt8) : Telnet :=
  { chan with
    sock := (chan.sock.sendall (escape data)).2
    eof := chan.eof || !(chan.sock.sendall (escape data)).1 }

end Telnet

end RiscosBuilder.Agent
