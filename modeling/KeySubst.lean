import KeySubst.Main
import KeySubst.Proofs.Files.Edits
import KeySubst.Proofs.SourceMap.Document
import KeySubst.Proofs.SourceMap.Decoded
import KeySubst.Proofs.Table.Completion
import KeySubst.Proofs.Table.History
import KeySubst.Proofs.Options.Reading
import KeySubst.Proofs.Replacer.Order
import KeySubst.Proofs.Substitution.Sequence
import KeySubst.Proofs.Matcher.Rounds
import KeySubst.Proofs.Substitution.Ranges
import KeySubst.Proofs.CommandLine.Output
import KeySubst.Proofs.SourceMap.Words
import KeySubst.Proofs.Substitution.Offsets
import KeySubst.Proofs.Matcher.Locality
import KeySubst.Proofs.Substitution.Locality
import KeySubst.Proofs.Json.Quotes
import KeySubst.Proofs.Substitution.Quoting
import KeySubst.Proofs.Pattern.Source
import KeySubst.Proofs.Options.Forms
import KeySubst.Proofs.Filter.Spelling
import KeySubst.Proofs.CommandLine.Results
import KeySubst.Proofs.Files.Parents
import KeySubst.Proofs.SourceMap.Stepping
import KeySubst.Proofs.Filter.Patterns
import KeySubst.Proofs.Replacer.Literals
import KeySubst.Proofs.CommandLine.Prefix
import KeySubst.Proofs.Substitution.Kept
import KeySubst.Proofs.SourceMap.Writer
