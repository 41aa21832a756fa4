import HamsterAvro.Files
import HamsterAvro.OutOfMemory
import HamsterAvro.Ownership
import HamsterAvro.RelayWrapped
import HamsterAvro.ResponseCapacity
import HamsterAvro.Reuse
