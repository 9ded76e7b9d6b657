import MemoryHard.Parameters
import MemoryHard.Hash.Pool
import MemoryHard.Settings.Document
import MemoryHard.Epoch.Board
import MemoryHard.Proofs.Outcome
import MemoryHard.Proofs.Sizes
import MemoryHard.Proofs.LightAndFull
import MemoryHard.Proofs.ValidSettings
import MemoryHard.Proofs.BoardSteps
import MemoryHard.Proofs.RunningMaximum
import MemoryHard.Proofs.LastPublication
import MemoryHard.Proofs.BuildThenPublish
import MemoryHard.Proofs.FreshDigesters
import MemoryHard.Proofs.WordNumbers
import MemoryHard.Proofs.CacheRecurrence
import MemoryHard.Proofs.ItemRecurrence
import MemoryHard.Proofs.MixRecurrence
import MemoryHard.Proofs.JudgedProofs
import MemoryHard.Proofs.DigestBinding
import MemoryHard.Proofs.EqualCaches
import MemoryHard.Proofs.SpelledValues
import MemoryHard.Proofs.SpelledRecords
import MemoryHard.Proofs.HexSpellings
import MemoryHard.Proofs.ProofText
import MemoryHard.Proofs.SettingsText
import MemoryHard.Proofs.Inquiries
import MemoryHard.Proofs.EvaluationInquiry
import MemoryHard.Proofs.RowsInside
import MemoryHard.Proofs.FailingSources
import MemoryHard.Proofs.WholePages
import MemoryHard.Proofs.ByteImages
import MemoryHard.Proofs.SeedTexts
import MemoryHard.Proofs.WrittenStrings
import MemoryHard.Proofs.SkippedValues
import MemoryHard.Proofs.SpacedRecords
import MemoryHard.Proofs.StatedSettings
import MemoryHard.Proofs.CongruentNumbers
import MemoryHard.Proofs.FillingOrders
import MemoryHard.Proofs.FirstPage
import MemoryHard.Proofs.LastPage
import MemoryHard.Proofs.UnalignedLengths
import MemoryHard.Proofs.SpannedBuffers
