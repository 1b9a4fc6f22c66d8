import Saltern.Main
import Saltern.Proofs.Brinefile.CronWords
import Saltern.Proofs.Brinefile.Partition
import Saltern.Proofs.Document.ByKeyword
import Saltern.Proofs.Document.Layout
import Saltern.Proofs.Document.LineEndings
import Saltern.Proofs.Document.Unmended
import Saltern.Proofs.Log.Inheritance
import Saltern.Proofs.Pins.Calls
import Saltern.Proofs.Pins.Fallback
import Saltern.Proofs.Pins.KeyLiterals
import Saltern.Proofs.Pins.Keys
import Saltern.Proofs.Project.Confined
import Saltern.Proofs.Project.Fulfilled
import Saltern.Proofs.Project.Starter
import Saltern.Proofs.Salt.LeastId
import Saltern.Proofs.Salt.Slug
import Saltern.Proofs.Watch.Settling
import Saltern.Proofs.Watch.Sight
import Saltern.Proofs.Yaml.Quoted
