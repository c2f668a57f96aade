import TigerMixer.SecretShare.Secrecy
import TigerMixer.Auditor.Robustness
import TigerMixer.Tumbler.Nullifiers
import TigerMixer.Puzzle.ProofSoundness
import TigerMixer.Puzzle.BlindSignature
import TigerMixer.Puzzle.Decryption
import TigerMixer.Staking.Solvency
import TigerMixer.Rotation.Eligibility
import TigerMixer.Mixer.Rewards
import TigerMixer.Escrow.RootHistory
import TigerMixer.Rotation.Weights
import TigerMixer.Rotation.History
import TigerMixer.Escrow.Verifier
import TigerMixer.Mixer.Release
import TigerMixer.Rotation.Log
import TigerMixer.Auditor.Session
import TigerMixer.Puzzle.Canonical
import TigerMixer.Auditor.KeyRequest
import TigerMixer.SecretShare.StaticCoeffs
import TigerMixer.Auditor.Clearing
import TigerMixer.Receiver.Atomicity
import TigerMixer.SecretShare.CommitmentRoundTrip
import TigerMixer.Reputation.Participation
import TigerMixer.Reputation.LogFormats
import TigerMixer.Reputation.Grouping
import TigerMixer.Detection.StatusFile
import TigerMixer.Detection.Command
import TigerMixer.Simulation.Counters
import TigerMixer.Simulation.Features
import TigerMixer.Simulation.Weights
import TigerMixer.Simulation.FirstLayer
import TigerMixer.Detection.DelayQueue
import TigerMixer.Reputation.Upload
import TigerMixer.Detection.DetectorOutput
import TigerMixer.Dkg.LagrangeCoefficients
import TigerMixer.Puzzle.ProofFormat
import TigerMixer.Agent.Accounting
import TigerMixer.Auditor.Monitor
import TigerMixer.Simulation.Budget
import TigerMixer.Auditor.SummaryEncoding
import TigerMixer.Dkg.Run
