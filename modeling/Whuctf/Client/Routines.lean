import Whuctf.Library.X86

/-!
# The routines the server installs in the client's slots

`setup_builtin_functions` and `load_executable_functions` of `server.c` send assembly text to
the assembler and its output to the client, which stores it in the 256-byte slots of
`elements`.  Each routine is given here line by line; the pointers `sprintf` prints into the
text (`glob_ptr` and `elements_ptr`) are parameters.

The three built-ins come first, since the routines of the check-in call them by the addresses of their
slots.  The texts that recur, the setting up of a call and the printing of a string, are definitions
with the slot as a parameter, and the routines are written with them as `server.c` writes them out.

A line is an instruction or a label, and the labels are those of the source, so a routine here can be
laid beside its text there.  What the assembler does with it is a parameter of the session; for running
a routine, `Library/X86` gives an image in which each line has an address of its own.
-/

namespace Whuctf.Client

open X86

/-- The labels of the assembly text, of all routines together; within one routine each is used once. -/
inductive Label
  | start | end_ | loop | wrong | right
  deriving DecidableEq, Repr

/-- A routine, as the text handed to the assembler: its instructions, with the labels between them. -/
abbrev Assembly := List (Line Label)

/-- A stretch of lines that only compute: no label among them, and none that jumps, calls or returns. -/
def ops (os : List Op) : Assembly := os.map fun o => .instr (.op o)

/-- The operand `[r + disp]`. -/
def deref (r : Reg) (disp : BitVec 64) : Addr := { base := r, index := none, disp }

/-- The operand `[b + i*scale]`. -/
def derefIndex (b i : Reg) (scale : BitVec 64) : Addr :=
  { base := b, index := some (i, scale), disp := 0#64 }

/-! ## The built-in functions, slots 400 to 402

Each takes its arguments in the registers of the string instructions it is built on, and not in those
of the C calling convention.  The comments of `server.c` say which. -/

/-- `FUNC_MEMCPY`: copy `RCX` bytes from `RSI` into `RDI`. -/
def memcpyCode : Assembly :=
  ops [.cld, .repMovsb] ++ [.instr .ret]

/-- `FUNC_MEMCMP`: compare `RCX` bytes between `RSI` and `RDI`, result in `RAX`, as the comment in the
source has it.  The routine ends in `setz al`, which sets the lowest byte only. -/
def memcmpCode : Assembly :=
  ops [.cld, .cmp64 .rcx .rcx, .repCmpsb, .setz .rax] ++ [.instr .ret]

/-- `FUNC_STRLEN`: the length of the null-terminated string at `RDI`, result in `RAX`. -/
def strlenCode : Assembly :=
  ops [.xor64 .rax .rax] ++
  [.label .start] ++
  ops [.load8 .rcx (derefIndex .rdi .rax 1#64), .test8 .rcx .rcx] ++
  [.instr (.jz .end_)] ++
  ops [.inc64 .rax] ++
  [.instr (.jmp .start), .label .end_, .instr .ret]

/-! ## The check-in program, slots 10 to 14

Slots 11 and 12 are the cipher of the challenge, in the two directions; 13 and 14 call others by
address, with the pointers of the client.  They keep no frame beyond the return address and what they
push themselves. -/

/-- Slot 10: prompt with the string of slot 9, then read 32 bytes into `global_data`, both by system
calls. -/
def inputCode (elements glob : BitVec 64) : Assembly :=
  ops [.movImm64 .rdi 1#64, .movImm64 .rsi (elements + 0x900#64), .movImm64 .rdx 15#64,
    .movImm64 .rax 1#64] ++
  [.instr .syscall] ++
  ops [.movImm64 .rdi 0#64, .movImm64 .rsi glob, .movImm64 .rdx 32#64, .movImm64 .rax 0#64] ++
  [.instr .syscall, .instr .ret]

/-- The lines of slot 11 before its loop: the pointers to the key and the block are kept in `R9` and
`R8`, the words are loaded, and the sum is zero. -/
def encryptEntry : List Op :=
  [ .mov64 .r9 .rsi,                                -- mov r9, rsi
    .mov32 .rcx (.mem (deref .rdi 4#64)),              -- mov ecx, [rdi+4]
    .mov32 .rsi (.mem (deref .rdi 0#64)),              -- mov esi, [rdi]
    .mov64 .r8 .rdi,                                -- mov r8, rdi
    .alu32 .xor .rax (.reg .rax),                   -- xor eax, eax
    .nop ]                                          -- nop dword ptr [rax+00000000h]

/-- The lines of slot 11 between the label `loop` and the jump back to it. -/
def encryptBody : List Op :=
  [ .mov32 .rdx (.reg .rax),                        -- mov edx, eax
    .mov32 .r10 (.reg .rcx),                        -- mov r10d, ecx
    .alu32 .and .rdx (.imm 3#32),                      -- and edx, 3
    .shr32 .r10 5,                                  -- shr r10d, 5
    .mov32 .rdi (.mem (derefIndex .r9 .rdx 4#64)),     -- mov edi, [r9+rdx*4]
    .mov32 .rdx (.reg .rcx),                        -- mov edx, ecx
    .shl32 .rdx 4,                                  -- shl edx, 4
    .alu32 .xor .rdx (.reg .r10),                   -- xor edx, r10d
    .alu32 .add .rdi (.reg .rax),                   -- add edi, eax
    .alu32 .sub .rax (.imm 0x61C88647#32),          -- sub eax, 61C88647h
    .alu32 .add .rdx (.reg .rcx),                   -- add edx, ecx
    .alu32 .xor .rdx (.reg .rdi),                   -- xor edx, edi
    .alu32 .add .rsi (.reg .rdx),                   -- add esi, edx
    .mov32 .rdx (.reg .rax),                        -- mov edx, eax
    .shr32 .rdx 0x0B,                               -- shr edx, 0Bh
    .mov32 .r10 (.reg .rsi),                        -- mov r10d, esi
    .alu32 .and .rdx (.imm 3#32),                      -- and edx, 3
    .shr32 .r10 5,                                  -- shr r10d, 5
    .mov32 .rdi (.mem (derefIndex .r9 .rdx 4#64)),     -- mov edi, [r9+rdx*4]
    .mov32 .rdx (.reg .rsi),                        -- mov edx, esi
    .shl32 .rdx 4,                                  -- shl edx, 4
    .alu32 .xor .rdx (.reg .r10),                   -- xor edx, r10d
    .alu32 .add .rdi (.reg .rax),                   -- add edi, eax
    .alu32 .add .rdx (.reg .rsi),                   -- add edx, esi
    .alu32 .xor .rdx (.reg .rdi),                   -- xor edx, edi
    .alu32 .add .rcx (.reg .rdx),                   -- add ecx, edx
    .cmp32 .rax (.imm 0xC6EF3720#32) ]              -- cmp eax, 0C6EF3720h

/-- The lines of slots 11 and 12 after the loop, up to their `ret`: the two words are stored where they
were loaded from. -/
def cipherExit : List Op :=
  [ .store32 (deref .r8 0#64) .rsi,                    -- mov [r8], esi
    .store32 (deref .r8 4#64) .rcx ]                   -- mov [r8+4], ecx

/-- Slot 11: encrypt the block at `RDI` with the key at `RSI`, the two halves in place. -/
def encryptCode : Assembly :=
  ops encryptEntry ++ [.label .loop] ++ ops encryptBody ++ [.instr (.jnz .loop)] ++
    ops cipherExit ++ [.instr .ret]

/-- The lines of slot 12 before its loop: those of slot 11, but for the sum, which starts where
encryption stops. -/
def decryptEntry : List Op :=
  [ .mov64 .r9 .rsi,                                -- mov r9, rsi
    .mov32 .rcx (.mem (deref .rdi 4#64)),              -- mov ecx, [rdi+4]
    .mov32 .rsi (.mem (deref .rdi 0#64)),              -- mov esi, [rdi]
    .mov64 .r8 .rdi,                                -- mov r8, rdi
    .mov32 .rax (.imm 0xC6EF3720#32),               -- mov eax, 0C6EF3720h
    .nop ]                                          -- nop dword ptr [rax+00h]

/-- The lines of slot 12 between the label `loop` and the jump back to it. -/
def decryptBody : List Op :=
  [ .mov32 .rdx (.reg .rax),                        -- mov edx, eax
    .mov32 .r10 (.reg .rsi),                        -- mov r10d, esi
    .shr32 .rdx 0x0B,                               -- shr edx, 0Bh
    .shr32 .r10 5,                                  -- shr r10d, 5
    .alu32 .and .rdx (.imm 3#32),                      -- and edx, 3
    .mov32 .rdi (.mem (derefIndex .r9 .rdx 4#64)),     -- mov edi, [r9+rdx*4]
    .mov32 .rdx (.reg .rsi),                        -- mov edx, esi
    .shl32 .rdx 4,                                  -- shl edx, 4
    .alu32 .xor .rdx (.reg .r10),                   -- xor edx, r10d
    .alu32 .add .rdi (.reg .rax),                   -- add edi, eax
    .alu32 .add .rax (.imm 0x61C88647#32),          -- add eax, 61C88647h
    .alu32 .add .rdx (.reg .rsi),                   -- add edx, esi
    .alu32 .xor .rdx (.reg .rdi),                   -- xor edx, edi
    .alu32 .sub .rcx (.reg .rdx),                   -- sub ecx, edx
    .mov32 .rdx (.reg .rax),                        -- mov edx, eax
    .alu32 .and .rdx (.imm 3#32),                      -- and edx, 3
    .mov32 .r10 (.reg .rcx),                        -- mov r10d, ecx
    .mov32 .rdi (.mem (derefIndex .r9 .rdx 4#64)),     -- mov edi, [r9+rdx*4]
    .mov32 .rdx (.reg .rcx),                        -- mov edx, ecx
    .shr32 .r10 5,                                  -- shr r10d, 5
    .shl32 .rdx 4,                                  -- shl edx, 4
    .alu32 .xor .rdx (.reg .r10),                   -- xor edx, r10d
    .alu32 .add .rdi (.reg .rax),                   -- add edi, eax
    .alu32 .add .rdx (.reg .rcx),                   -- add edx, ecx
    .alu32 .xor .rdx (.reg .rdi),                   -- xor edx, edi
    .alu32 .sub .rsi (.reg .rdx),                   -- sub esi, edx
    .test32 .rax .rax ]                             -- test eax, eax

/-- Slot 12: decrypt the block at `RDI` with the key at `RSI`. -/
def decryptCode : Assembly :=
  ops decryptEntry ++ [.label .loop] ++ ops decryptBody ++ [.instr (.jnz .loop)] ++
    ops cipherExit ++ [.instr .ret]

/-- The four lines of slot 13 that set up a call of the cipher in slot `slot` on the block at
`glob + off`. -/
def cipherCall (elements glob : BitVec 64) (slot off : BitVec 64) : List Op :=
  [ .movImm64 .rax (elements + slot * 0x100#64),
    .movImm64 .rdi (glob + off),
    .movImm64 .rsi (elements + 0x800#64) ]

/-- The lines of slot 13 that set up the call of `FUNC_MEMCMP`. -/
def compareCall (elements glob : BitVec 64) : List Op :=
  [ .movImm64 .rdi (elements + 0x700#64),
    .movImm64 .rsi glob,
    .movImm64 .rcx 32#64,
    .movImm64 .rax (elements + 401#64 * 0x100#64) ]

/-- Slot 13: encrypt the first two blocks of `global_data`, decrypt the next two, and compare all 32
bytes with the answer in slot 7.  The result of the comparison is left in `AL`. -/
def validationCode (elements glob : BitVec 64) : Assembly :=
  ops (cipherCall elements glob 11#64 0#64) ++ [.instr (.call .rax)] ++
  ops (cipherCall elements glob 11#64 8#64) ++ [.instr (.call .rax)] ++
  ops (cipherCall elements glob 12#64 16#64) ++ [.instr (.call .rax)] ++
  ops (cipherCall elements glob 12#64 24#64) ++ [.instr (.call .rax)] ++
  ops (compareCall elements glob) ++ [.instr (.call .rax), .instr .ret]

/-- The lines of slot 14 that print the text in a slot. -/
def printCall (elements : BitVec 64) (slot len : BitVec 64) : List Op :=
  [ .movImm64 .rdi 1#64,
    .movImm64 .rsi (elements + slot * 0x100#64),
    .movImm64 .rdx len,
    .movImm64 .rax 1#64 ]

/-- Slot 14: run the validation and print the verdict, the string of slot 200 or that of slot 300. -/
def mainCode (elements : BitVec 64) : Assembly :=
  ops [.movImm64 .rax (elements + 13#64 * 0x100#64)] ++ [.instr (.call .rax)] ++
  ops [.test8 .rax .rax] ++ [.instr (.jnz .right), .label .wrong] ++
  ops (printCall elements 300#64 48#64) ++ [.instr .syscall, .instr .ret, .label .right] ++
  ops (printCall elements 200#64 49#64) ++ [.instr .syscall, .instr .ret]

end Whuctf.Client
