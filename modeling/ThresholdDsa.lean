import ThresholdDsa.Ec2.Binding
import ThresholdDsa.Ec2.Hiding
import ThresholdDsa.Ec2.PdlRuns
import ThresholdDsa.Ec2.Primality
import ThresholdDsa.Ec2.SafePrimes
import ThresholdDsa.Ec2.ShareChecks
import ThresholdDsa.Ec2.Transcript
import ThresholdDsa.Ecdsa.KeygenChecks
import ThresholdDsa.Ecdsa.ReshareHonest
import ThresholdDsa.Ecdsa.RoundRuns
import ThresholdDsa.Ecdsa.SigningChecks
import ThresholdDsa.Eddsa.KeygenChecks
import ThresholdDsa.Hospital.Ownership
import ThresholdDsa.Hospital.Winner
import ThresholdDsa.P2p.EmitterLock
import ThresholdDsa.P2p.Groups
import ThresholdDsa.Smpc.ChildSign
import ThresholdDsa.Smpc.EarlyMessages
import ThresholdDsa.Smpc.EdSave
import ThresholdDsa.Smpc.EdSignRuns
import ThresholdDsa.Smpc.KeygenStatus
import ThresholdDsa.Smpc.MessageCodec
import ThresholdDsa.Smpc.Nonces
import ThresholdDsa.Smpc.PreSignSuccess
import ThresholdDsa.Smpc.PreSignSync
import ThresholdDsa.Smpc.ReshareIds
import ThresholdDsa.Smpc.ReshareReplay
import ThresholdDsa.Smpc.ReshareStatus
import ThresholdDsa.Smpc.SaveString
import ThresholdDsa.Smpc.SignKey
import ThresholdDsa.Smpc.SigsData
import ThresholdDsa.Smpc.WorkerReuse
