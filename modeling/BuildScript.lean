import BuildScript.Main
import BuildScript.Record
import BuildScript.Workspace
import BuildScript.Proofs.Command.Configuration
import BuildScript.Proofs.Command.Effect
import BuildScript.Proofs.Declaration.Excerpt
import BuildScript.Proofs.Diff.Unified
import BuildScript.Proofs.Edit.Account
import BuildScript.Proofs.Edit.Ambiguity
import BuildScript.Proofs.Edit.Arrangement
import BuildScript.Proofs.Edit.Conflict
import BuildScript.Proofs.Index.Kinds
import BuildScript.Proofs.Index.Position
import BuildScript.Proofs.Session.Addition
import BuildScript.Proofs.Session.Address
import BuildScript.Proofs.Session.Clause
import BuildScript.Proofs.Session.Comment
import BuildScript.Proofs.Session.Coordinate
import BuildScript.Proofs.Session.Ending
import BuildScript.Proofs.Session.Ledger
import BuildScript.Proofs.Session.Ownership
import BuildScript.Proofs.Session.Property
import BuildScript.Proofs.Session.Refusal
import BuildScript.Proofs.Session.Removal
import BuildScript.Proofs.Session.Reparse
import BuildScript.Proofs.Session.Standing
import BuildScript.Proofs.Session.Target
import BuildScript.Proofs.Settings.Defaults
import BuildScript.Proofs.Text.Location
import BuildScript.Proofs.Text.Piece
