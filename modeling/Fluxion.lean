import Fluxion.Expr.Infix
import Fluxion.Main
import Fluxion.Proofs.Differentiation
import Fluxion.Proofs.Endings
import Fluxion.Proofs.Placement
import Fluxion.Proofs.PowerRule
import Fluxion.Proofs.Reprinting
import Fluxion.Proofs.Concord
import Fluxion.Proofs.Successive
import Fluxion.Proofs.Acceptance
import Fluxion.Proofs.Blame
import Fluxion.Proofs.Substitution
import Fluxion.Proofs.Spelling
import Fluxion.Proofs.Positions
import Fluxion.Proofs.Answering
import Fluxion.Proofs.Climbing
import Fluxion.Proofs.Parentheses
import Fluxion.Proofs.DepthEncoding
import Fluxion.Proofs.MaximalMunch
import Fluxion.Proofs.Provision
import Fluxion.Proofs.Composition
import Fluxion.Proofs.Outlines
import Fluxion.Proofs.Reach
import Fluxion.Proofs.Entries
