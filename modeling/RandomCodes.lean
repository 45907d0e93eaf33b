import RandomCodes.Configuration.Writer
import RandomCodes.Description.Generator
import RandomCodes.Draws.Script
import RandomCodes.Main
import RandomCodes.Proofs.Code.FixedLength
import RandomCodes.Proofs.CommandLine.Agreement
import RandomCodes.Proofs.Configuration.Acceptance
import RandomCodes.Proofs.Pattern.BracketedMembers
import RandomCodes.Proofs.Pattern.Drafts
import RandomCodes.Proofs.Pattern.GreedyEntries
import RandomCodes.Proofs.Pattern.Growth
import RandomCodes.Proofs.Pattern.MarkerPlaces
import RandomCodes.Proofs.Pattern.Progress
import RandomCodes.Proofs.Pattern.QuantifierForms
import RandomCodes.Proofs.Pattern.Remnants
import RandomCodes.Proofs.Pattern.RepeatedClosers
import RandomCodes.Proofs.Pattern.SearchHistory
import RandomCodes.Proofs.Pattern.ShorthandResolution
import RandomCodes.Proofs.Random.BoundedDraws
import RandomCodes.Proofs.Random.SeededAnswers
