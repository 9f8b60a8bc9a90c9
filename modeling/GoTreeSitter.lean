import GoTreeSitter.Rewrite.Apply
import GoTreeSitter.Lexer.IncludedCorrect
import GoTreeSitter.Corridor.DecodeCorrect
import GoTreeSitter.Corridor.Fused
import GoTreeSitter.Glr.MergeCorrect
import GoTreeSitter.Gss.Lossless
import GoTreeSitter.Grammargen.MinimizeCorrect
import GoTreeSitter.Source.Utf16Correct
import GoTreeSitter.Grammargen.AssembleCorrect
import GoTreeSitter.ParserCore.SchedulerCorrect
import GoTreeSitter.Language.BlobCorrect
import GoTreeSitter.Grammargen.GrammarJsonCorrect
import GoTreeSitter.Query.RangeCorrect
import GoTreeSitter.Query.CursorCorrect
import GoTreeSitter.Query.PlainCorrect
import GoTreeSitter.Query.AlternationCorrect
import GoTreeSitter.Language.Lookahead
import GoTreeSitter.Lexer.NextCorrect
import GoTreeSitter.Injection.Incremental
import GoTreeSitter.Tree.Descendant
import GoTreeSitter.Lexer.AsciiTable
import GoTreeSitter.Grammargen.Preference
import GoTreeSitter.Grammargen.Inclusion
import GoTreeSitter.ParserCore.DropCohort
import GoTreeSitter.Query.AlternationIndex
import GoTreeSitter.Scanner.Snapshots
import GoTreeSitter.Scanner.Checkpoints
import GoTreeSitter.Lexer.IncludedRanges
