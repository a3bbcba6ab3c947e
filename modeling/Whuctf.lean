import Whuctf.PEShellcode.BlowfishEngine
import Whuctf.Library.Feistel
import Whuctf.Library.Loop
import Whuctf.PEShellcode.RoundTrip
import Whuctf.Client.Cipher
import Whuctf.Client.Routines
import Whuctf.Client.CipherRoutines
import Whuctf.Client.Validation
import Whuctf.Client.Verdict
import Whuctf.Library.Process
import Whuctf.Library.Transition
import Whuctf.Client.Server
import Whuctf.Client.Operations
import Whuctf.Client.Lockstep
import Whuctf.Client.FlagSecrecy
import Whuctf.Library.Python
import Whuctf.MiaES.Cipher
import Whuctf.Library.Refinement
import Whuctf.MiaES.Block
import Whuctf.MiaES.Layers
import Whuctf.MiaES.KeySchedule
import Whuctf.MiaES.RoundTrip
import Whuctf.MiaES.Stream
import Whuctf.Pieces.Transcript
import Whuctf.Lattice.KeyGeneration
import Whuctf.Lattice.RoundTrip
import Whuctf.Imitate.Token
import Whuctf.Case.Search
import Whuctf.Case.Group
import Whuctf.Case.Completeness
import Whuctf.Library.Coroutine
import Whuctf.Library.Crc
import Whuctf.Segments.Checksum
import Whuctf.Segments.Detection
import Whuctf.Fibs.Coroutine
import Whuctf.Fibs.Generator
import Whuctf.Client.Solution
import Whuctf.Client.CipherRefinement
import Whuctf.PEShellcode.Session
import Whuctf.Library.Aes128
import Whuctf.MiaES.StdBk
import Whuctf.MiaES.Fips
import Whuctf.Checkin.Game
import Whuctf.Client.Delivery
import Whuctf.Client.Segmentation
import Whuctf.Library.Blowfish
import Whuctf.PEShellcode.Textbook
import Whuctf.PEShellcode.CyclicKeys
import Whuctf.MiaES.Whitening
import Whuctf.Library.Primality
import Whuctf.Imitate.PrivateExponent
import Whuctf.Library.Cbc
import Whuctf.Library.Json
import Whuctf.WhoAreYou.App
import Whuctf.WhoAreYou.Exploit
import Whuctf.Library.Query
import Whuctf.TextClustering.App
import Whuctf.TextClustering.Page
import Whuctf.Imitate.Factoring
import Whuctf.Library.Endian
import Whuctf.Pieces.KeyRecovery
import Whuctf.SubjectSystem.Extraction
import Whuctf.SubjectSystem.Courses
import Whuctf.IoTemplate.Primes
import Whuctf.Lunar.Task
import Whuctf.TextClustering.Confinement
import Whuctf.Client.Builtins
import Whuctf.Client.Placement
import Whuctf.Client.Messages
import Whuctf.Client.SlotContents
import Whuctf.Client.Connection
import Whuctf.Client.Machine
import Whuctf.TextClustering.Training
import Whuctf.TextClustering.Service
import Whuctf.SubjectSystem.Injection
import Whuctf.PEShellcode.Hooks
import Whuctf.Lunar.Session
import Whuctf.Imitate.Solution
import Whuctf.Library.Scope
import Whuctf.PEShellcode.Shellcode
import Whuctf.Library.SplitText
import Whuctf.Lunar.ProofOfWork
import Whuctf.Lattice.Solution
import Whuctf.Client.Answer
import Whuctf.MiaES.InvCipher
import Whuctf.TextClustering.Exploit
import Whuctf.Client.Completion
