import Whuctf.Client.Routines
import Whuctf.Client.Validation
import Whuctf.Library.Process

/-!
# The check-in server

`server.c` as a process on one connection.  An operation sends `global_data`, then the opcode
and its fields, and reads the element the client sends back; the number of bytes that `read`
returns is not looked at, so a short read leaves the rest of `global_data` as it was
(`readEcho`).  `global_data` and the two pointers of the client are globals of the program: they
outlive a connection.

The assembler and the flag file are parameters.  `ks_asm` either assembles a text or fails, and
a failure ends the program; the flag file is `none` when it cannot be opened.

The two programs talk over a stream, so an operation here is a `Proc`: what it writes and reads, in the
order of the calls of `write` and `read` in the source.  One call of `write` is one write, although
nothing depends on how the bytes of an operation are divided among them; one call of `read` is one
read, and there everything depends on it.
-/

namespace Whuctf.Client

/-- The globals of the server that outlive a connection: the element `global_data`, and the two
pointers that each client sends at its start. -/
structure Server where
  globalData : Element
  globPtr : BitVec 64
  elementsPtr : BitVec 64

/-- The operations of the protocol, `OPT_NEW` to `OPT_EXIT`, in the order of the enumeration. -/
inductive Opt
  | new | del | exec | exit
  deriving DecidableEq, Repr

/-- The byte sent for an operation, its place in the `enum`. -/
def Opt.code : Opt → Byte
  | .new => 0#8
  | .del => 1#8
  | .exec => 2#8
  | .exit => 3#8

/-- `ks_asm`: the machine code of a text, or `none` when it does not assemble.  The assembler is no
part of the repository, so it is a parameter of everything that loads a slot. -/
abbrev Assembler := Assembly → Option (List Byte)

open Proc (send receive halt)

/-! ## Operations -/

/-- `read(connectfd, &global_data, sizeof(global_data))`, behind every operation.  The count it returns
is not looked at: after a short read the bytes behind those that came are the old ones. -/
def readEcho (s : Server) : Proc Server Server := do
  let bs ← receive 256
  pure { s with globalData := s.globalData.overwrite bs }

/-- `_operation_new`: the text is assembled first, and a failure ends the server with `exit(1)` when
the element has been sent already.  The length goes as an `int`, whatever a slot can take. -/
def operationNew (ksAsm : Assembler) (s : Server) (index : BitVec 32) (str : Assembly) :
    Proc Server Unit :=
  match ksAsm str with
  | none => halt s
  | some result => do
      send [Opt.new.code]
      send (Word32.bytesLE index)
      send (Word32.bytesLE (BitVec.ofNat 32 result.length))
      send result

/-- `_operation_del` and `_operation_exec`, which send an opcode and an index and differ in the opcode
only. -/
def operationIndexed (opt : Opt) (index : BitVec 32) : Proc Server Unit := do
  send [opt.code]
  send (Word32.bytesLE index)

/-- `_operation_exit`, which sends nothing behind the opcode: the element has been sent before it. -/
def operationExit : Proc Server Unit := send [Opt.exit.code]

/-- What `operation_dispatcher` sends: the element in front of every operation, then the operation
itself. -/
def announce (ksAsm : Assembler) (s : Server) (opt : Opt) (idx : BitVec 32) (str : Assembly) :
    Proc Server Unit := do
  send s.globalData.toList
  match opt with
  | .new => operationNew ksAsm s idx str
  | .del => operationIndexed .del idx
  | .exec => operationIndexed .exec idx
  | .exit => operationExit

/-- `operation_dispatcher`: the element and the operation go to the client, and its element comes back.
-/
def operationDispatcher (ksAsm : Assembler) (s : Server) (opt : Opt) (idx : BitVec 32)
    (str : Assembly) : Proc Server Server := do
  announce ksAsm s opt idx str
  readEcho s

/-- `operation_write_data`: an `OPT_NEW` whose payload is not assembled but given. -/
def operationWriteData (s : Server) (index : BitVec 32) (data : List Byte) :
    Proc Server Server := do
  send s.globalData.toList
  send [Opt.new.code]
  send (Word32.bytesLE index)
  send (Word32.bytesLE (BitVec.ofNat 32 data.length))
  send data
  readEcho s

/-- `operation_write_string`: the string goes with its terminator, so one byte more than `strlen`
finds. -/
def operationWriteString (s : Server) (index : BitVec 32) (str : List Byte) :
    Proc Server Server :=
  operationWriteData s index (str ++ [0#8])

/-! ## A session

A connection is one call of this process.  It loads thirteen slots, has the client run two of them, and
compares what it replied with the answer it knows; what it finds decides what is in the element that
goes with `OPT_EXIT`. -/

/-- A pointer variable after `read` has stored bytes at its start.  Fewer than eight bytes leave the
upper ones of an earlier client in place. -/
def patchPointer (p : BitVec 64) (bs : List Byte) : BitVec 64 :=
  X86.load64 (Memory.write (X86.store64 (fun _ => 0#8) 0#64 p) 0#64 bs) 0#64

/-- The two reads with which a connection starts, each over a pointer that may be left from before. -/
def readPointers (s : Server) : Proc Server Server := do
  let bs ← receive 8
  let s := { s with globPtr := patchPointer s.globPtr bs }
  let bs ← receive 8
  pure { s with elementsPtr := patchPointer s.elementsPtr bs }

/-- `setup_builtin_functions`: the three routines that the code of other slots calls. -/
def setupBuiltinFunctions (ksAsm : Assembler) (s : Server) : Proc Server Server := do
  let s ← operationDispatcher ksAsm s .new 400#32 memcpyCode
  let s ← operationDispatcher ksAsm s .new 401#32 memcmpCode
  operationDispatcher ksAsm s .new 402#32 strlenCode

/-- `"Please input: "`, the line that goes into slot 9. -/
def promptText : List Byte :=
  [ 0x50, 0x6c, 0x65, 0x61, 0x73, 0x65, 0x20, 0x69, 0x6e, 0x70, 0x75, 0x74, 0x3a, 0x20 ]

/-- `"Congratulations, you have sign in successfully!\n"`, the line that goes into slot 200. -/
def rightText : List Byte :=
  [ 0x43, 0x6f, 0x6e, 0x67, 0x72, 0x61, 0x74, 0x75, 0x6c, 0x61, 0x74, 0x69, 0x6f, 0x6e, 0x73,
    0x2c, 0x20, 0x79, 0x6f, 0x75, 0x20, 0x68, 0x61, 0x76, 0x65, 0x20, 0x73, 0x69, 0x67, 0x6e,
    0x20, 0x69, 0x6e, 0x20, 0x73, 0x75, 0x63, 0x63, 0x65, 0x73, 0x73, 0x66, 0x75, 0x6c, 0x6c,
    0x79, 0x21, 0x0a ]

/-- `"Failed to verify your input!  Please try again!\n"`, the line that goes into slot 300. -/
def wrongText : List Byte :=
  [ 0x46, 0x61, 0x69, 0x6c, 0x65, 0x64, 0x20, 0x74, 0x6f, 0x20, 0x76, 0x65, 0x72, 0x69, 0x66,
    0x79, 0x20, 0x79, 0x6f, 0x75, 0x72, 0x20, 0x69, 0x6e, 0x70, 0x75, 0x74, 0x21, 0x20, 0x50,
    0x6c, 0x65, 0x61, 0x73, 0x65, 0x20, 0x74, 0x72, 0x79, 0x20, 0x61, 0x67, 0x61, 0x69, 0x6e,
    0x21, 0x0a ]

/-- `load_executable_functions`: the data of the check-in, then its routines, into whose texts the
pointers of the client are printed, then the two verdicts. -/
def loadExecutableFunctions (ksAsm : Assembler) (s : Server) : Proc Server Server := do
  let s ← operationWriteData s 7#32 shippedAnswer
  let s ← operationWriteString s 8#32 shippedKey
  let s ← operationWriteString s 9#32 promptText
  let s ← operationDispatcher ksAsm s .new 10#32 (inputCode s.elementsPtr s.globPtr)
  let s ← operationDispatcher ksAsm s .new 11#32 encryptCode
  let s ← operationDispatcher ksAsm s .new 12#32 decryptCode
  let s ← operationDispatcher ksAsm s .new 13#32 (validationCode s.elementsPtr s.globPtr)
  let s ← operationDispatcher ksAsm s .new 14#32 (mainCode s.elementsPtr)
  let s ← operationWriteString s 200#32 rightText
  operationWriteString s 300#32 wrongText

/-- `fgets` with a buffer of 256: up to 255 bytes, and no further than the first newline. -/
def fgets (file : List Byte) : List Byte :=
  let line := file.take 255
  line.take (line.idxOf 0x0A#8 + 1)

/-- The bytes `strcpy` copies: up to the first zero byte, and a terminator behind them. -/
def cString (bs : List Byte) : List Byte := bs.takeWhile (· != 0#8) ++ [0#8]

/-- `"Failed to open flag file, please contact admin for help."`, which stands for the flag when there
is no file. -/
def missingText : List Byte :=
  [ 0x46, 0x61, 0x69, 0x6c, 0x65, 0x64, 0x20, 0x74, 0x6f, 0x20, 0x6f, 0x70, 0x65, 0x6e, 0x20,
    0x66, 0x6c, 0x61, 0x67, 0x20, 0x66, 0x69, 0x6c, 0x65, 0x2c, 0x20, 0x70, 0x6c, 0x65, 0x61,
    0x73, 0x65, 0x20, 0x63, 0x6f, 0x6e, 0x74, 0x61, 0x63, 0x74, 0x20, 0x61, 0x64, 0x6d, 0x69,
    0x6e, 0x20, 0x66, 0x6f, 0x72, 0x20, 0x68, 0x65, 0x6c, 0x70, 0x2e ]

/-- The string a correct reply is rewarded with: the line of the flag file up to its terminator, or the
advice to ask for help when there is no file. -/
def prize (flagFile : Option (List Byte)) : List Byte :=
  match flagFile with
  | some file => cString (fgets file)
  | none => cString missingText

/-- `global_data` after the verdict: the last byte is `correct`, and a correct reply gets the
flag copied over the start. -/
def reward (flagFile : Option (List Byte)) (verdict : Bool) (g : Element) : Element :=
  let g := g.set 255 (if verdict then 1#8 else 0#8)
  if verdict then Element.overwrite g (prize flagFile) else g

/-- The part of `run_validation` after the reply to `OPT_EXEC 10` has been read: the reply is masked
and compared, slot 14 runs on the masked reply, and the reward is put into what came back from it. -/
def giveVerdict (ksAsm : Assembler) (flagFile : Option (List Byte)) (s : Server) :
    Proc Server Server := do
  let s := { s with globalData := maskReply s.globalData }
  let verdict := correct shippedKey shippedAnswer s.globalData
  let s ← operationDispatcher ksAsm s .exec 14#32 []
  let s := { s with globalData := reward flagFile verdict s.globalData }
  operationDispatcher ksAsm s .exit 0#32 []

/-- `run_validation`: slot 10 asks for the reply, and the verdict on it follows. -/
def runValidation (ksAsm : Assembler) (flagFile : Option (List Byte)) (s : Server) :
    Proc Server Server := do
  let s ← operationDispatcher ksAsm s .exec 10#32 []
  giveVerdict ksAsm flagFile s

/-- The body of the accept loop, from `accept` to `close`.  It returns the globals that the next
connection starts with. -/
def handleConnection (ksAsm : Assembler) (flagFile : Option (List Byte)) (s : Server) :
    Proc Server Server := do
  let s ← readPointers s
  let s ← setupBuiltinFunctions ksAsm s
  let s ← loadExecutableFunctions ksAsm s
  runValidation ksAsm flagFile s

end Whuctf.Client
