import SidTune.Main
import SidTune.Proofs.Assembly.Counting
import SidTune.Proofs.Build.Conflict
import SidTune.Proofs.Build.Outcome
import SidTune.Proofs.Chip.SharedFilter
import SidTune.Proofs.Command.Effects
import SidTune.Proofs.Player.Displacement
import SidTune.Proofs.Player.FilterBits
import SidTune.Proofs.Player.Restart
import SidTune.Proofs.Player.Safety
import SidTune.Proofs.Player.Sources
import SidTune.Proofs.Player.Timing
import SidTune.Proofs.Player.Words
import SidTune.Proofs.Psid.Foreign
import SidTune.Proofs.Psid.Header
import SidTune.Proofs.Psid.Package
import SidTune.Proofs.Song.Culprit
import SidTune.Proofs.Song.FirstRejection
import SidTune.Proofs.Song.Unknown
import SidTune.Proofs.Tune.Faithful
import SidTune.Proofs.Tune.Tables
import SidTune.Proofs.Tune.Ticks
