import RiscosBuilder.Agent.CommandHandover
import RiscosBuilder.Library.ByteString

/-!
# The agent's session loop

`serve` of `files/anyvmd.py`, with the dispatch on the two tar one-liners.
What happens outside the agent is a script: what a command prints, whether a
push can create its directory, and how `tarfile` reads the channel, which
members it delivers and whether it raises.
-/

namespace RiscosBuilder.Agent

open RiscosBuilder.Library RiscosBuilder.Library.ByteString

/-! ## Recognising a transfer -/

/-- `unquote`. -/
def unquote (word : List UInt8) : List UInt8 :=
  if 2 ≤ word.length ∧ word.head? = some 0x27 ∧ word.getLast? = some 0x27 then
    (word.drop 1).dropLast
  else word

/-- The two transfers: `'extract'` is a push, `'create'` a pull. -/
inductive Action where
  | extract
  | create
  deriving DecidableEq, Repr

/-- The `flags` of a tar command, from the words behind `tar`. -/
def tarFlags (options : List (List UInt8)) : List UInt8 :=
  (options.filter fun word => (ascii "-").isPrefixOf word ||
    [ascii "xf", ascii "cf", ascii "x", ascii "c"].contains word).flatMap
      (lstrip 0x2d)

/-- The `for part in parts` loop of `parse_tar_command`; `none` is its `return None`. -/
def parseParts : List (List UInt8) → Option (List UInt8) → Option Action →
    Option (Option (List UInt8) × Option Action)
  | [], directory, action => some (directory, action)
  | part :: parts, directory, action =>
      if (ascii "mkdir ").isPrefixOf part then parseParts parts directory action
      else if (ascii "cd ").isPrefixOf part then
        parseParts parts (some (unquote (strip (part.drop 3)))) action
      else
        match words part with
        | [] => none
        | command :: options =>
            if command ≠ ascii "tar" then none
            else if 0x78 ∈ tarFlags options then
              parseParts parts directory (some .extract)
            else if 0x63 ∈ tarFlags options then
              parseParts parts directory (some .create)
            else none

/-- `parse_tar_command`. -/
def parseTarCommand (line : List UInt8) : Option (Action × List UInt8) :=
  match parseParts ((splitOnPair 0x26 0x26 line).map strip) none none with
  | some (some directory, some action) => some (action, directory)
  | _ => none

/-- `while name.startswith("./"): name = name[2:]`. -/
def stripDotSlash : List UInt8 → List UInt8
  | 0x2e :: 0x2f :: name => stripDotSlash name
  | name => name

/-- `safe_name`, with `..` for `os.pardir`. -/
def safeName (name : List UInt8) : Option (List UInt8) :=
  let name := (stripDotSlash name).rdropWhile (· == 0x2f)
  if name = [] ∨ name.head? = some 0x2f ∨
      (name.splitOn 0x2f).contains (ascii "..") then none
  else some name

/-! ## The transfers and the commands -/

/-- `TAR_DONE` and the line end behind it. -/
def tarDone : List UInt8 :=
  ascii "anyvm-tar-done" ++ [CR, LF]

/-- What `tarfile` does next: read from the channel, or deliver a member. -/
inductive TarStep where
  | read (want : Nat)
  | member (name : List UInt8)
  deriving DecidableEq, Repr

/--
How a push goes: the directory is missing and `os.makedirs` raises, or
`tarfile` takes its steps and then raises or comes to its end.
-/
inductive Extraction where
  | noDirectory
  | tar (steps : List TarStep) (raises : Bool)
  deriving DecidableEq, Repr

/-- The steps up to the exception or the end: the names extracted, the channel. -/
def runTar : List TarStep → Telnet → List (List UInt8) × Telnet
  | [], chan => ([], chan)
  | .read want :: steps, chan => runTar steps (chan.read want).2
  | .member name :: steps, chan =>
      ((safeName name).toList ++ (runTar steps chan).1, (runTar steps chan).2)

/-- `do_extract`: the names extracted, and the channel after. -/
def doExtract (chan : Telnet) : Extraction → List (List UInt8) × Telnet
  | .noDirectory => ([], chan)
  | .tar steps true => runTar steps chan
  | .tar steps false =>
      ((runTar steps chan).1, (runTar steps chan).2.write tarDone)

/-- `run_command`: the blocks the command has left in its scrap file are sent. -/
def runCommand (chan : Telnet) (output : List (List UInt8)) : Telnet :=
  output.foldl Telnet.write chan

/-! ## The loop -/

/-- What the outside contributes to one turn of the loop. -/
structure Turn where
  output : List (List UInt8)
  extraction : Extraction

/-- What a turn has the operating system do. -/
inductive Event where
  | ran (line : List UInt8)
  | pushed (directory : List UInt8) (names : List (List UInt8))
  | pulled (directory : List UInt8)
  deriving DecidableEq, Repr

/-- The outcome of a turn; `next` is `none` when the loop is left. -/
structure Turned where
  events : List Event
  next : Option Telnet

/-- One turn of the `while` loop of `serve`. -/
def serveTurn (turn : Turn) (chan : Telnet) : Turned :=
  if chan.eof then ⟨[], none⟩
  else
    match chan.readLine with
    | (none, _) => ⟨[], none⟩
    | (some line, chan) =>
        if strip line = [] then ⟨[], some chan⟩
        else
          match parseTarCommand (strip line) with
          | none => ⟨[.ran (strip line)], some (runCommand chan turn.output)⟩
          | some (.extract, directory) =>
              ⟨[.pushed directory (doExtract chan turn.extraction).1],
                some (doExtract chan turn.extraction).2⟩
          | some (.create, directory) => ⟨[.pulled directory], none⟩

/--
The first turns of `serve`, each with the channel it began with.  `world n` is
what the outside contributes to turn `n`.
-/
def serve (world : Nat → Turn) : Nat → Telnet → List (Telnet × List Event)
  | 0, _ => []
  | turns + 1, chan =>
      (chan, (serveTurn (world 0) chan).events) ::
        match (serveTurn (world 0) chan).next with
        | none => []
        | some chan => serve (fun n => world (n + 1)) turns chan

end RiscosBuilder.Agent
