import Calynda.CSem.Literals
import Calynda.Tokenizer.Nesting
import Calynda.CSem.Assignment
import Calynda.CSem.TailCall
import Calynda.Sema.Lexical
import Calynda.Hir.Carried
import Calynda.Decompiler.Faithful
import Calynda.Decompiler.Cover
import Calynda.Decompiler.Extract
import Calynda.Decompiler.Liveness
import Calynda.Decompiler.Inverse
import Calynda.Decompiler.AesInverse
import Calynda.Decompiler.SlotTypes
import Calynda.Decompiler.Signature
import Calynda.Decompiler.Reaching
import Calynda.Decompiler.JumpTables
import Calynda.Decompiler.Disassembly
import Calynda.Decompiler.BuiltRegions
import Calynda.Solite.MemoRuns
import Calynda.Jsx.Exact
import Calynda.Sema.MergeLists
import Calynda.Decompiler.Rename
import Calynda.Decompiler.Package
import Calynda.Decompiler.ClassFields
import Calynda.Decompiler.Names
import Calynda.Decompiler.TypeTranslation
import Calynda.Decompiler.Stats
import Calynda.Solite.Observers
import Calynda.Jsx.Elements
import Calynda.Jsx.StyleTexts
import Calynda.Runtime.Templates
import Calynda.Jsx.Routing
import Calynda.Jsx.ShownTexts
import Calynda.Jsx.WholeCalls
import Calynda.Solite.Mirroring
import Calynda.Physics.ContactPairs
import Calynda.Physics.Handles
import Calynda.Physics.Characters
import Calynda.Physics.Depths
import Calynda.Gfx3d.Culling
import Calynda.Gfx3d.Rendering
import Calynda.Gfx3d.Forest
import Calynda.Gfx3d.Textures
import Calynda.Gfx3d.Bridge
import Calynda.Motion.Gestures
